import Galley.Proofs.Html.Rounds
import Galley.Proofs.Html.Stages

/-!
# Trees of markup that keeps to a vocabulary

Markup that keeps to a vocabulary is read into tags that do so, and the tree is built of nothing else. The markup may
end in a value: then its last tag has no end, and such a tag is nothing.

* `tagRest?_reads` — the attributes of a tag;
* `nextToken?_reads` — a token;
* `elements_of_reads` — the elements of the tree.
-/

namespace Galley.Html

variable {v : Vocabulary}

namespace Stage

variable {cs rest : List Char} {c : Char} {stop : Stage}

/-! ## Attributes -/

/-- A value that counts is read to its quote, where it is held against the list. -/
theorem counted_reads (ends : stop.isEnd = true) {tag attr : String} {reversed : List Char}
    (reads : (counted tag attr reversed).after? v cs = some stop) :
    ∃ raw rest, cs = raw ++ '\x22' :: rest ∧ '\x22' ∉ raw ∧ (inside tag).after? v rest = some stop ∧
      v.values tag attr (.ofList (valueOf (reversed.reverse ++ raw))) = true := by
  induction cs generalizing reversed with
  | nil =>
    obtain rfl := Option.some.inj reads
    cases ends
  | cons c rest ih =>
    obtain ⟨next, first, others⟩ := after?_cons_eq_some.mp reads
    unfold next? at first
    simp only at first
    split at first
    next quote =>
      subst quote
      split at first
      next listed =>
        obtain rfl := Option.some.inj first
        exact ⟨[], rest, rfl, List.not_mem_nil, others, by rwa [List.append_nil]⟩
      next => cases first
    next other =>
      split at first
      · cases first
      · obtain rfl := Option.some.inj first
        obtain ⟨raw, after, rfl, plain, inner, listed⟩ := ih others
        refine ⟨c :: raw, after, rfl, by simp [plain, Ne.symm other], inner, ?_⟩
        rwa [List.reverse_cons, List.append_assoc] at listed

/-- What follows a value: nothing, or its quote and the rest of the tag. -/
def AfterValue (v : Vocabulary) (tag : String) (stop : Stage) : List Char → Prop
  | [] => True
  | c :: rest => c = '\x22' ∧ (inside tag).after? v rest = some stop

/-- A value that may be anything is read to its quote, or to the end of the markup. -/
theorem value_reads {tag : String} (reads : (value tag).after? v cs = some stop) :
    ∃ raw tail, cs = raw ++ tail ∧ '\x22' ∉ raw ∧ AfterValue v tag stop tail := by
  induction cs with
  | nil => exact ⟨[], [], rfl, List.not_mem_nil, trivial⟩
  | cons c rest ih =>
    obtain ⟨next, first, others⟩ := after?_cons_eq_some.mp reads
    obtain rfl := Option.some.inj first
    split at others
    next quote => exact ⟨[], c :: rest, rfl, List.not_mem_nil, quote, others⟩
    next other =>
      obtain ⟨raw, tail, rfl, plain, after⟩ := ih others
      exact ⟨c :: raw, tail, rfl, by simp [plain, Ne.symm other], after⟩

/-- The rest of the name of an attribute, an equals sign, and a value on the list. -/
theorem key_reads (ends : stop.isEnd = true) {tag : String} {reversed : List Char}
    (reads : (key tag reversed).after? v cs = some stop) :
    ∃ more raw tail, cs = more ++ '=' :: '\x22' :: (raw ++ tail) ∧
      (∀ d ∈ more, d.isLower = true ∨ d = '-') ∧ '\x22' ∉ raw ∧ AfterValue v tag stop tail ∧
      v.Allows tag ⟨"", .ofList (reversed.reverse ++ more), .ofList (valueOf raw)⟩ := by
  induction cs generalizing reversed with
  | nil =>
    obtain rfl := Option.some.inj reads
    cases ends
  | cons c rest ih =>
    obtain ⟨next, first, others⟩ := after?_cons_eq_some.mp reads
    unfold next? at first
    simp only at first
    split at first
    next goesOn =>
      obtain rfl := Option.some.inj first
      obtain ⟨more, raw, tail, rfl, small, plain, after, listed⟩ := ih others
      rw [List.reverse_cons, List.append_assoc] at listed
      exact ⟨c :: more, raw, tail, rfl, List.forall_mem_cons.mpr ⟨goesOn, small⟩, plain, after, listed⟩
    next =>
      split at first
      next equals =>
        subst equals
        obtain rfl := Option.some.inj first
        cases rest with
        | nil =>
          obtain rfl := Option.some.inj others
          cases ends
        | cons d rest =>
          obtain ⟨next, second, others⟩ := after?_cons_eq_some.mp others
          unfold next? at second
          simp only at second
          split at second
          next quote =>
            subst quote
            obtain rfl := Option.some.inj second
            split at others
            next free =>
              obtain ⟨raw, tail, rfl, plain, after⟩ := value_reads others
              exact ⟨[], raw, tail, rfl, fun _ absent => absurd absent List.not_mem_nil, plain, after,
                .inl (by rwa [List.append_nil])⟩
            next =>
              obtain ⟨raw, tail, rfl, plain, inner, listed⟩ := counted_reads ends others
              exact ⟨[], raw, '\x22' :: tail, rfl, fun _ absent => absurd absent List.not_mem_nil, plain, ⟨rfl, inner⟩,
                .inr (by rwa [List.append_nil])⟩
          next => cases second
      next => cases first

/-! ## Tags -/

theorem toLower_of_not_isUpper (small : c.isUpper = false) : c.toLower = c := by
  unfold Char.toLower
  refine dif_neg fun upper => ?_
  rw [← Bool.not_eq_true] at small
  refine small ?_
  simpa [Char.isUpper] using upper

theorem not_isUpper_of_isLower (lower : c.isLower = true) : c.isUpper = false := by
  rw [← Bool.not_eq_true]
  intro upper
  simp only [Char.isLower, Char.isUpper, Bool.and_eq_true, decide_eq_true_eq, UInt32.le_iff_toNat_le, ge_iff_le]
    at lower upper
  exact absurd (Nat.le_trans lower.1 upper.2) (by decide)

theorem not_isUpper_of_isDigit (digit : c.isDigit = true) : c.isUpper = false := by
  rw [← Bool.not_eq_true]
  intro upper
  simp only [Char.isDigit, Char.isUpper, Bool.and_eq_true, decide_eq_true_eq, UInt32.le_iff_toNat_le, ge_iff_le]
    at digit upper
  exact absurd (Nat.le_trans upper.1 digit.2) (by decide)

/-- Small letters, digits and hyphens are names as they are. -/
theorem cleanName_eq (small : ∀ d ∈ cs, d.isLower = true ∨ d.isDigit = true ∨ d = '-') :
    cleanName cs = .ofList cs := by
  have same : ∀ d ∈ cs, (if d.toNat == 0 then '\ufffd' else d.toLower) = d := fun d member => by
    have notZero : d.toNat ≠ 0 := fun zero => by
      obtain rfl : d = '\x00' := Char.toNat_inj.mp zero
      exact absurd (small _ member) (by decide)
    rw [if_neg (by simpa using notZero)]
    rcases small d member with lower | digit | rfl
    · exact toLower_of_not_isUpper (not_isUpper_of_isLower lower)
    · exact toLower_of_not_isUpper (not_isUpper_of_isDigit digit)
    · rfl
  rw [cleanName, List.map_congr_left same, List.map_id']

theorem valueAfterEquals_quoted {raw tail : List Char} (plain : '\x22' ∉ raw) (quote : ∀ d ∈ tail.head?, d = '\x22') :
    valueAfterEquals ('\x22' :: (raw ++ tail)) = (valueOf raw, tail.drop 1) := by
  have enough : raw.length < (raw ++ tail).length + 1 := by
    simp only [List.length_append]
    omega
  have read : attributeValue isQuote ((raw ++ tail).length + 1) (raw ++ tail) = (valueOf raw, tail) := by
    cases tail with
    | nil =>
      rw [List.append_nil] at enough ⊢
      exact (attributeValue_spec plain enough).1
    | cons d rest =>
      obtain rfl := quote d rfl
      exact (attributeValue_spec plain enough).2 rest
  unfold isQuote at read
  unfold valueAfterEquals
  have blank : isSpace '\x22' = false := by decide
  simp only [List.dropWhile_cons, blank, Bool.false_eq_true, if_false, read]

theorem mem_addAttribute {attributes : List Attribute} {name value : List Char} {attr : Attribute}
    (member : attr ∈ addAttribute attributes name value) :
    attr ∈ attributes ∨ attr = ⟨"", cleanName name, .ofList value⟩ := by
  unfold addAttribute at member
  simp only at member
  split at member
  · exact .inl member
  · rwa [List.mem_append, List.mem_singleton] at member

theorem tagRest?_solidus {attributes : List Attribute} {fuel : Nat} (other : ∀ after, rest ≠ '>' :: after) :
    tagRest? attributes (fuel + 1) ('/' :: rest) = tagRest? attributes fuel rest := by
  have noBracket : ('/' == '>') = false := by decide
  have noBlank : isSpace '/' = false := by decide
  rw [tagRest?.eq_def]
  simp only [noBracket, noBlank, Bool.false_eq_true, if_false, beq_self_eq_true, if_true]

/-- An attribute with a value behind a quote. -/
theorem tagRest?_attribute {attributes : List Attribute} {fuel : Nat} {more raw tail : List Char}
    (lower : c.isLower = true) (small : ∀ d ∈ more, d.isLower = true ∨ d = '-') (plain : '\x22' ∉ raw)
    (quote : ∀ d ∈ tail.head?, d = '\x22') :
    tagRest? attributes (fuel + 1) (c :: (more ++ '=' :: '\x22' :: (raw ++ tail))) =
      tagRest? (addAttribute attributes (c :: more) (valueOf raw)) fuel (tail.drop 1) := by
  have letter : ∀ {d : Char}, d.isLower = true ∨ d = '-' →
      (isSpace d || d == '/' || d == '>' || d == '=') = false := fun {d} letter => by
    rw [← Bool.not_eq_true]
    intro mark
    simp only [isSpace, Bool.or_eq_true, beq_iff_eq, or_assoc] at mark
    rcases mark with rfl | rfl | rfl | rfl | rfl | rfl | rfl | rfl <;> exact absurd letter (by decide)
  have first := letter (.inl lower)
  simp only [Bool.or_eq_false_iff] at first
  obtain ⟨⟨⟨noBlank, noSolidus⟩, noBracket⟩, -⟩ := first
  have name : (more ++ '=' :: '\x22' :: (raw ++ tail)).takeWhile
      (fun d => !(isSpace d || d == '/' || d == '>' || d == '=')) = more := by
    rw [Text.takeWhile_before (by decide), List.takeWhile_eq_self_iff]
    exact fun d member => by rw [letter (small d member)]; rfl
  have equals : isSpace '=' = false := by decide
  rw [tagRest?.eq_def]
  simp only [noBracket, noBlank, noSolidus, Bool.false_eq_true, if_false, name, List.drop_left,
    List.dropWhile_cons, equals, valueAfterEquals_quoted plain quote]

theorem tagRest?_nil (attributes : List Attribute) (fuel : Nat) : tagRest? attributes fuel [] = none := by
  cases fuel <;> rfl

/-- From inside a tag its attributes are read, and all of them are on the list, unless the tag has no end. -/
theorem tagRest?_reads (ends : stop.isEnd = true) {tag : String} {fuel : Nat} (enough : cs.length < fuel)
    (reads : (inside tag).after? v cs = some stop) {attributes : List Attribute}
    (allowed : ∀ attr ∈ attributes, v.Allows tag attr) :
    tagRest? attributes fuel cs = none ∨
      ∃ read isClosed rest, tagRest? attributes fuel cs = some (read, isClosed, rest) ∧
        (∀ attr ∈ read, v.Allows tag attr) ∧ text.after? v rest = some stop := by
  induction fuel generalizing cs attributes with
  | zero => exact absurd enough (Nat.not_lt_zero _)
  | succ fuel ih =>
    cases cs with
    | nil => exact .inl rfl
    | cons c rest =>
      have left : rest.length < fuel := Nat.lt_of_succ_lt_succ enough
      obtain ⟨next, first, others⟩ := after?_cons_eq_some.mp reads
      unfold next? at first
      simp only at first
      split at first
      next bracket =>
        subst bracket
        obtain rfl := Option.some.inj first
        exact .inr ⟨attributes, false, rest, rfl, allowed, others⟩
      next =>
      split at first
      next skipped =>
        obtain rfl := Option.some.inj first
        have found := ih left others allowed
        rcases skipped with rfl | rfl
        · exact found
        · by_cases closed : ∃ tail, rest = '>' :: tail
          · -- The solidus ends the tag, and what follows the bracket is text.
            obtain ⟨tail, rfl⟩ := closed
            exact .inr ⟨attributes, true, tail, rfl, allowed, others⟩
          · rw [tagRest?_solidus fun tail same => closed ⟨tail, same⟩]
            exact found
      next =>
      split at first
      next lower =>
        obtain rfl := Option.some.inj first
        obtain ⟨more, raw, tail, rfl, small, plain, after, listed⟩ := key_reads ends others
        have name : cleanName (c :: more) = .ofList (c :: more) := cleanName_eq fun d member => by
          rcases List.mem_cons.mp member with rfl | member
          · exact .inl lower
          · exact (small d member).imp_right .inr
        have known : ∀ attr ∈ addAttribute attributes (c :: more) (valueOf raw), v.Allows tag attr :=
          fun attr member => by
            rcases mem_addAttribute member with old | rfl
            · exact allowed attr old
            · rw [name]
              exact listed
        cases tail with
        | nil =>
          rw [tagRest?_attribute lower small plain fun _ absent => by cases absent]
          exact .inl (tagRest?_nil _ _)
        | cons quote tail =>
          obtain ⟨rfl, inner⟩ := after
          rw [tagRest?_attribute lower small plain fun _ first => (Option.mem_some.mp first).symm]
          refine ih (Nat.lt_of_le_of_lt ?_ left) inner known
          simp only [List.length_append, List.length_cons]
          omega
      next => cases first

/-- The rest of the name of a closing tag, and its end. -/
theorem stopName_reads (ends : stop.isEnd = true) {reversed : List Char}
    (reads : (name true reversed).after? v cs = some stop) :
    ∃ more rest, cs = more ++ '>' :: rest ∧ (∀ d ∈ more, isNameChar d = true) ∧ text.after? v rest = some stop := by
  induction cs generalizing reversed with
  | nil =>
    obtain rfl := Option.some.inj reads
    cases ends
  | cons c rest ih =>
    obtain ⟨next, first, others⟩ := after?_cons_eq_some.mp reads
    unfold next? at first
    simp only [if_true] at first
    split at first
    next goesOn =>
      obtain rfl := Option.some.inj first
      obtain ⟨more, after, rfl, small, outside⟩ := ih others
      exact ⟨c :: more, after, rfl, List.forall_mem_cons.mpr ⟨goesOn, small⟩, outside⟩
    next =>
      split at first
      next bracket =>
        obtain rfl := Option.some.inj first
        exact ⟨[], rest, congrArg (· :: rest) bracket, fun _ absent => absurd absent List.not_mem_nil, others⟩
      next => cases first

/-- The rest of the name of an opening tag. The name is on the list, and from its end on the tag is read. -/
theorem startName_reads (ends : stop.isEnd = true) {reversed : List Char}
    (reads : (name false reversed).after? v cs = some stop) :
    ∃ more c rest, cs = more ++ c :: rest ∧ (∀ d ∈ more, isNameChar d = true) ∧ (c = '>' ∨ c = ' ') ∧
      v.names (.ofList (reversed.reverse ++ more)) = true ∧
      (inside (.ofList (reversed.reverse ++ more))).after? v (c :: rest) = some stop := by
  induction cs generalizing reversed with
  | nil =>
    obtain rfl := Option.some.inj reads
    cases ends
  | cons c rest ih =>
    obtain ⟨next, first, others⟩ := after?_cons_eq_some.mp reads
    unfold next? at first
    simp only [Bool.false_eq_true, if_false] at first
    split at first
    next goesOn =>
      obtain rfl := Option.some.inj first
      obtain ⟨more, d, after, rfl, small, last, listed, inner⟩ := ih others
      rw [List.reverse_cons, List.append_assoc] at listed inner
      exact ⟨c :: more, d, after, rfl, List.forall_mem_cons.mpr ⟨goesOn, small⟩, last, listed, inner⟩
    next =>
      split at first
      next listed =>
        split at first
        next bracket =>
          subst bracket
          obtain rfl := Option.some.inj first
          refine ⟨[], '>', rest, rfl, fun _ absent => absurd absent List.not_mem_nil, .inl rfl, ?_, ?_⟩
          · rwa [List.append_nil]
          · exact after?_cons_eq_some.mpr ⟨text, rfl, others⟩
        next =>
          split at first
          next blank =>
            subst blank
            obtain rfl := Option.some.inj first
            refine ⟨[], ' ', rest, rfl, fun _ absent => absurd absent List.not_mem_nil, .inr rfl, ?_, ?_⟩
            · rwa [List.append_nil]
            · rw [List.append_nil]
              exact after?_cons_eq_some.mpr ⟨_, rfl, others⟩
          next => cases first
      next => cases first

/-- The name of a tag is read up to its end. -/
theorem tagName_eq {name : List Char} (small : ∀ d ∈ name, isNameChar d = true) (ends : c = '>' ∨ c = ' ')
    (rest : List Char) : tagName (name ++ c :: rest) = (.ofList name, c :: rest) := by
  have letter : ∀ d ∈ name, (!(isSpace d || d == '/' || d == '>')) = true := fun d member => by
    have known := small d member
    rw [Bool.not_eq_true', ← Bool.not_eq_true]
    intro mark
    simp only [isSpace, Bool.or_eq_true, beq_iff_eq, or_assoc] at mark
    rcases mark with rfl | rfl | rfl | rfl | rfl | rfl | rfl <;> exact absurd known (by decide)
  have stops : (!(isSpace c || c == '/' || c == '>')) = false := by
    rcases ends with rfl | rfl <;> decide
  have taken : (name ++ c :: rest).takeWhile (fun d => !(isSpace d || d == '/' || d == '>')) = name := by
    rw [Text.takeWhile_before stops, List.takeWhile_eq_self_iff]
    exact letter
  have clean : cleanName name = .ofList name := cleanName_eq fun d member => by
    have known := small d member
    rw [isNameChar, Bool.or_eq_true] at known
    exact known.imp_right .inl
  unfold tagName
  simp only [taken, clean, List.drop_left]

/-- An opening tag is read, and its element is on the list, unless the tag has no end. -/
theorem startTag?_start (ends : stop.isEnd = true) (lower : c.isLower = true)
    (reads : (name false [c]).after? v cs = some stop) :
    startTag? (c :: cs) = none ∨
      ∃ tag rest, startTag? (c :: cs) = some (tag, rest) ∧ v.Admits tag.element ∧ text.after? v rest = some stop := by
  obtain ⟨more, d, after, rfl, small, last, listed, inner⟩ := startName_reads ends reads
  have whole : ∀ d ∈ c :: more, isNameChar d = true :=
    List.forall_mem_cons.mpr ⟨by rw [isNameChar, lower, Bool.true_or], small⟩
  have name := tagName_eq whole last after
  have none : ∀ attr ∈ ([] : List Attribute), v.Allows (.ofList (c :: more)) attr := fun _ absent =>
    absurd absent List.not_mem_nil
  rw [List.cons_append] at name
  simp only [startTag?, name, Option.bind_eq_bind, Option.pure_def]
  rcases tagRest?_reads ends (Nat.lt_succ_self _) inner none with missing | ⟨read, isClosed, rest, found, known, outside⟩
  · rw [missing]
    exact .inl rfl
  · rw [found]
    exact .inr ⟨⟨.ofList (c :: more), read, isClosed⟩, rest, rfl, ⟨rfl, listed, known⟩, outside⟩

/-- A closing tag is read. -/
theorem startTag?_stop (ends : stop.isEnd = true) (lower : c.isLower = true)
    (reads : (name true [c]).after? v cs = some stop) :
    ∃ tag rest, startTag? (c :: cs) = some (tag, rest) ∧ text.after? v rest = some stop := by
  obtain ⟨more, rest, rfl, small, outside⟩ := stopName_reads ends reads
  have whole : ∀ d ∈ c :: more, isNameChar d = true :=
    List.forall_mem_cons.mpr ⟨by rw [isNameChar, lower, Bool.true_or], small⟩
  have name := tagName_eq whole (.inl rfl) rest
  refine ⟨⟨.ofList (c :: more), [], false⟩, rest, ?_, outside⟩
  rw [List.cons_append] at name
  simp only [startTag?, name, Option.bind_eq_bind, Option.pure_def]
  rfl

/-! ## Tokens -/

theorem isAlpha_of_isLower (lower : c.isLower = true) : c.isAlpha = true := by
  rw [Char.isAlpha, lower, Bool.or_true]

/-- What an opening bracket begins is a tag, and if it opens an element, the element is on the list. A tag without an
    end is nothing. -/
theorem bracketToken?_reads (ends : stop.isEnd = true) (plain : Bool) (reads : bracket.after? v cs = some stop) :
    bracketToken? plain cs = none ∨
      ∃ token rest, bracketToken? plain cs = some (token, rest) ∧ token.Opens v.Admits ∧
        text.after? v rest = some stop := by
  cases cs with
  | nil =>
    obtain rfl := Option.some.inj reads
    cases ends
  | cons c rest =>
    obtain ⟨next, first, others⟩ := after?_cons_eq_some.mp reads
    unfold next? at first
    simp only at first
    split at first
    next solidus =>
      subst solidus
      obtain rfl := Option.some.inj first
      cases rest with
      | nil =>
        obtain rfl := Option.some.inj others
        cases ends
      | cons d rest =>
        obtain ⟨next, second, others⟩ := after?_cons_eq_some.mp others
        unfold next? at second
        simp only at second
        split at second
        next lower =>
          obtain rfl := Option.some.inj second
          obtain ⟨tag, after, found, outside⟩ := startTag?_stop ends lower others
          refine .inr ⟨.stop tag.name, after, ?_, trivial, outside⟩
          simp only [bracketToken?, isAlpha_of_isLower lower, if_true, found, Option.map_some]
        next => cases second
    next noSolidus =>
      split at first
      next lower =>
        obtain rfl := Option.some.inj first
        have other : c ≠ '!' ∧ c ≠ '?' := by
          constructor <;> rintro rfl <;> exact absurd lower (by decide)
        have same : bracketToken? plain (c :: rest) =
            (startTag? (c :: rest)).map fun found => (.start found.1, found.2) := by
          rw [bracketToken?.eq_def]
          split
          next same => exact absurd (List.cons.inj same).1 other.1
          next same => exact absurd (List.cons.inj same).1 other.2
          next same => exact absurd (List.cons.inj same).1 noSolidus
          next same => exact absurd (List.cons.inj same).1 noSolidus
          next same =>
            obtain ⟨rfl, rfl⟩ := List.cons.inj same
            rw [if_pos (isAlpha_of_isLower lower)]
          next absent => cases absent
        rw [same]
        rcases startTag?_start ends lower others with missing | ⟨tag, after, found, admits, outside⟩
        · rw [missing]
          exact .inl rfl
        · rw [found]
          exact .inr ⟨.start tag, after, rfl, admits, outside⟩
      next => cases first

/-- A run of text begins the text, and it holds no bracket. -/
theorem textRun_spec {isMark : Char → Bool} (marked : isMark '<' = true) (first : c ≠ '<') (rest : List Char) :
    textRun isMark (c :: rest) <+: c :: rest ∧ '<' ∉ textRun isMark (c :: rest) := by
  rw [textRun]
  split
  · exact ⟨List.takeWhile_prefix _, fun member => absurd (List.mem_takeWhile_imp member) (by decide)⟩
  · refine ⟨(List.prefix_cons_inj _).mpr (List.takeWhile_prefix _), fun member => ?_⟩
    rcases List.mem_cons.mp member with same | later
    · exact first same.symm
    · have plain := List.mem_takeWhile_imp later
      simp [marked] at plain

/-- The next token of markup that keeps to a vocabulary does so too, and the markup after it still does. -/
theorem nextToken?_reads (ends : stop.isEnd = true) (plain : Bool) (reads : text.after? v (c :: rest) = some stop) :
    nextToken? .markup plain (c :: rest) = none ∨
      ∃ token after, nextToken? .markup plain (c :: rest) = some (token, after) ∧ token.Opens v.Admits ∧
        text.after? v after = some stop := by
  obtain ⟨next, first, others⟩ := after?_cons_eq_some.mp reads
  obtain rfl := Option.some.inj first
  unfold nextToken?
  simp only [beq_iff_eq]
  split at others
  next bracket =>
    rw [if_pos bracket]
    exact bracketToken?_reads ends plain others
  next noBracket =>
    rw [if_neg noBracket]
    refine .inr ?_
    split
    next ampersand =>
      obtain ⟨used, whole, clear⟩ := reference_used false rest
      rw [whole] at others
      exact ⟨.text (reference false rest).1, _, rfl, trivial, after?_right clear others⟩
    next =>
      unfold textToken
      simp only
      split
      · exact ⟨.null, rest, rfl, trivial, others⟩
      · have spec := textRun_spec (show isTextMark '<' = true by decide) noBracket rest
        generalize textRun isTextMark (c :: rest) = run at spec
        obtain ⟨⟨left, whole⟩, clear⟩ := spec
        refine ⟨.text run, left, ?_, trivial, after?_right clear (whole ▸ reads)⟩
        rw [← whole, List.drop_left]

end Stage

open Stage

/-- A tree is built of what is on the list only. -/
theorem sound_build (ordinary : Ordinary v.Admits) {stop : Stage} (ends : stop.isEnd = true) {builder : Builder}
    (sound : Builder.Sound v.Admits builder) {cs : List Char} (reads : Stage.text.after? v cs = some stop) :
    Builder.Sound v.Admits (build builder cs) := by
  induction h : cs.length using Nat.strongRecOn generalizing builder cs with
  | ind length ih =>
    unfold build
    cases cs with
    | nil =>
      rw [sound.textMode]
      exact sound
    | cons c rest =>
      rw [sound.textMode]
      rcases nextToken?_reads ends (builder.current.space != .html) reads with
        missing | ⟨token, after, found, opens, outside⟩
      · simp only [missing]
        exact sound
      simp only [found]
      -- Closing tags lead back to markup, and all other tokens leave it as it is.
      have next : ∀ textMode, textMode = TextMode.markup →
          Builder.Sound v.Admits ({ builder with textMode }.step token) := fun textMode same =>
        Builder.Sound.step ordinary ⟨sound.dom, sound.stack, sound.formatting, same⟩ opens
      split
      next shorter => exact ih _ (h ▸ shorter) (next _ (by cases token <;> rfl)) outside rfl
      next => exact next _ (by cases token <;> rfl)

/-- Markup that keeps to a vocabulary is read into trees whose elements are all on the list. -/
theorem elements_of_reads (ordinary : Ordinary v.Admits) {markup : String} {stop : Stage} (ends : stop.isEnd = true)
    (reads : Reads v .text markup stop) : ∀ element ∈ elementsOf (parseFragment markup), v.Admits element :=
  have opens : Token.comment.Opens v.Admits := trivial
  ((sound_build ordinary ends .empty (after?_normalizeBreaks reads)).step ordinary opens).dom.content

end Galley.Html
