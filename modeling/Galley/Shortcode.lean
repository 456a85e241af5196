/-!
# Emoji shortcodes

A name between colons stands for a pictogram.

* `Shortcode.glyph?` — the pictogram with a name;
* `Shortcode.nextName?` — the first name between two colons;
* `Shortcode.expand` — a text with its shortcodes replaced.
-/

namespace Galley.Shortcode

/-- The names and their pictograms. -/
def glyphs : List (String × String) :=
  [("smile", "😄"), ("laughing", "😆"), ("blush", "😊"), ("heart_eyes", "😍"), ("sunglasses", "😎"),
   ("thinking", "🤔"), ("thumbsup", "👍"), ("thumbsdown", "👎"), ("clap", "👏"), ("fire", "🔥"),
   ("rocket", "🚀"), ("star", "⭐"), ("heart", "❤\ufe0f"), ("check", "✅"),
   ("heavy_check_mark", "✅"), ("x", "❌"), ("warning", "⚠\ufe0f"), ("bulb", "💡"), ("book", "📖"),
   ("link", "🔗"), ("sparkles", "✨"), ("zap", "⚡"), ("bug", "🐛"), ("wrench", "🔧"),
   ("gear", "⚙\ufe0f"), ("lock", "🔒"), ("key", "🔑"), ("megaphone", "📣"), ("bell", "🔔"),
   ("gift", "🎁"), ("calendar", "📅"), ("clock", "🕒"), ("email", "📧"), ("phone", "📞"),
   ("computer", "💻"), ("folder", "📁"), ("file_folder", "📁"), ("file", "📄"), ("pencil", "✏\ufe0f"),
   ("memo", "📝"), ("clipboard", "📋"), ("chart", "📊"), ("bar_chart", "📊"), ("search", "🔍"),
   ("eyes", "👀"), ("wave", "👋"), ("pray", "🙏"), ("muscle", "💪"), ("tada", "🎉"), ("party", "🎉"),
   ("balloon", "🎈"), ("crown", "👑"), ("trophy", "🏆"), ("medal", "🏅"), ("100", "💯"),
   ("plus1", "👍"), ("+1", "👍"), ("minus1", "👎"), ("-1", "👎"), ("question", "❓"),
   ("exclamation", "❗"), ("info", "ℹ\ufe0f"), ("arrow_up", "⬆\ufe0f"), ("arrow_down", "⬇\ufe0f"),
   ("arrow_left", "⬅\ufe0f"), ("arrow_right", "➡\ufe0f"), ("coffee", "☕"), ("pizza", "🍕"),
   ("beer", "🍺"), ("cake", "🍰"), ("sun", "☀\ufe0f"), ("moon", "🌙"), ("cloud", "☁\ufe0f"),
   ("rain", "🌧\ufe0f"), ("snow", "❄\ufe0f"), ("dog", "🐶"), ("cat", "🐱"), ("bird", "🐦"),
   ("tree", "🌳"), ("flower", "🌻"), ("earth", "🌍"), ("airplane", "✈\ufe0f"), ("car", "🚗"),
   ("house", "🏠"), ("building", "🏢"), ("keyboard", "⌨\ufe0f"), ("bookmark", "🔖"), ("art", "🎨"),
   ("abacus", "🧮")]

/-- The pictogram with a name. -/
def glyph? (name : String) : Option String := glyphs.lookup name

/-- Whether a character can stand in a name. -/
def isNameChar (c : Char) : Bool :=
  c.isAlphanum || c == '_' || c == '+' || c == '-'

/-- The name that a text goes on with after a colon, if a colon follows it, and the text after that colon. -/
def nameAfterColon? (cs : List Char) : Option (List Char × List Char) :=
  let name := cs.takeWhile isNameChar
  match cs.drop name.length with
  | ':' :: after => if name.isEmpty then none else some (name, after)
  | _ => none

/-- The first name between two colons: what stands before the first of them, the name, and what stands after the
second. -/
def nextName? : List Char → Option (List Char × List Char × List Char)
  | [] => none
  | c :: rest =>
    match c == ':', nameAfterColon? rest with
    | true, some (name, after) => some ([], name, after)
    | _, _ => (nextName? rest).map fun (before, name, after) => (c :: before, name, after)

theorem eq_of_nameAfterColon? {cs name after : List Char} (h : nameAfterColon? cs = some (name, after)) :
    cs = name ++ ':' :: after ∧ name ≠ [] := by
  have whole := List.prefix_iff_eq_append.mp (List.takeWhile_prefix isNameChar (l := cs))
  simp only [nameAfterColon?] at h
  split at h
  · rename_i rest hrest
    split at h
    · simp at h
    · rename_i filled
      simp only [Option.some.injEq, Prod.mk.injEq] at h
      obtain ⟨rfl, rfl⟩ := h
      rw [hrest] at whole
      exact ⟨whole.symm, by simpa using filled⟩
  · simp at h

/-- The text with the name that was found in it. -/
theorem eq_of_nextName? {cs before name after : List Char} (h : nextName? cs = some (before, name, after)) :
    cs = before ++ ':' :: (name ++ ':' :: after) ∧ name ≠ [] := by
  induction cs generalizing before with
  | nil => simp [nextName?] at h
  | cons c rest ih =>
    rw [nextName?] at h
    split at h
    · rename_i colon found
      simp only [Option.some.injEq, Prod.mk.injEq] at h
      obtain ⟨rfl, rfl, rfl⟩ := h
      obtain ⟨rfl, filled⟩ := eq_of_nameAfterColon? found
      exact ⟨by simpa using colon, filled⟩
    · simp only [Option.map_eq_some_iff, Prod.mk.injEq, Prod.exists] at h
      obtain ⟨before', name', after', found, rfl, rfl, rfl⟩ := h
      obtain ⟨rfl, filled⟩ := ih found
      exact ⟨rfl, filled⟩

/-- What follows a name is shorter than the text, also with a colon in front of it. -/
theorem length_of_nextName? {cs before name after : List Char} (h : nextName? cs = some (before, name, after)) :
    after.length + 1 < cs.length := by
  obtain ⟨rfl, filled⟩ := eq_of_nextName? h
  have := List.length_pos_iff.mpr filled
  simp only [List.length_append, List.length_cons]
  omega

/-- Replaces the shortcodes in the rest of a text. `written` is the new text up to the last shortcode that was replaced,
if there was one, and `unwritten` is what was read since then. The colon that ends an unknown name can begin another
one. -/
def expandFrom (written : Option (List Char)) (unwritten cs : List Char) : Option (List Char) :=
  match h : nextName? cs with
  | none => written.map (· ++ unwritten ++ cs)
  | some (before, name, after) =>
    have := length_of_nextName? h
    match glyph? (.ofList name) with
    | some glyph => expandFrom (some (written.getD [] ++ unwritten ++ before ++ glyph.toList)) [] after
    | none => expandFrom written (unwritten ++ before ++ ':' :: name) (':' :: after)
termination_by cs.length
decreasing_by
  · omega
  · simpa only [List.length_cons]

/-- A text with its shortcodes replaced, or nothing if none was. -/
def expand? (text : String) : Option String :=
  if text.toList.contains ':' then (expandFrom none [] text.toList).map .ofList else none

/-- A text with its shortcodes replaced. -/
def expand (text : String) : String := (expand? text).getD text

end Galley.Shortcode
