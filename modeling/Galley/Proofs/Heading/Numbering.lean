import Galley.Proofs.Heading.Fresh

/-!
# Numbers in heading ids

The number that is noted with an id tells where the search for the next one begins. The search passes over all numbers up
to it, so it finds the least one only because each of them is in use. Ids that look like numbered ids of other headings
do not disturb this: they only add to what is in use.

* `IdFor` — the id of a heading, given those of the headings before it;
* `assign_cases` — what one heading does to the ids in use;
* `Counted` — each number up to the one that is noted is in use, and `Counted.assign`, why this stays so;
* `ids_of_texts` — the ids of headings that come one after the other.
-/

namespace Galley.Heading.UsedIds

variable {used : UsedIds} {base id text : String} {taken texts : List String}

/-- The ids of headings that come one after the other. -/
def assignAll (used : UsedIds) : List String → List (Option String)
  | [] => []
  | text :: texts => (used.assign text).1 :: (used.assign text).2.assignAll texts

/-- The id of a heading when some ids are taken. -/
inductive IdFor (taken : List String) (text : String) : Option String → Prop where
  /-- A text without characters for ids gets none. -/
  | blank (nothing : idText text = "") : IdFor taken text none
  /-- A text gets its own id if that is a new one. -/
  | own (something : idText text ≠ "") (new : idText text ∉ taken) : IdFor taken text (some (idText text))
  /-- Else it gets its own id with the least number that makes it a new one. -/
  | withNumber {k : Nat} (something : idText text ≠ "") (old : idText text ∈ taken)
      (least : IsLeast {k | 1 ≤ k ∧ numbered (idText text) k ∉ taken} k) :
      IdFor taken text (some (numbered (idText text) k))

/-! ## One heading -/

/-- From a numbered id on, the search stops at a numbered id, and all that it passes are in use. -/
theorem firstFree_numbered (used : UsedIds) (base : String) (fuel count : Nat) :
    ∃ k, used.firstFree base fuel count (numbered base count) = (numbered base k, k) ∧ count ≤ k ∧
      ∀ j, count ≤ j → j < k → used.uses (numbered base j) = true := by
  induction fuel generalizing count with
  | zero => exact ⟨count, rfl, Nat.le_refl _, fun j low high => absurd low (Nat.not_le.mpr high)⟩
  | succ fuel ih =>
    by_cases inUse : used.uses (numbered base count) = true
    · obtain ⟨k, found, more, passed⟩ := ih (count + 1)
      refine ⟨k, by rw [firstFree, if_pos inUse, found], by omega, fun j low high => ?_⟩
      by_cases first : j = count
      · rw [first, inUse]
      · exact passed j (by omega) high
    · exact ⟨count, by rw [firstFree, if_neg inUse], Nat.le_refl _,
        fun j low high => absurd low (Nat.not_le.mpr high)⟩

/-- A heading gets no id, its own one, or its own one with a number behind the one that is noted. -/
theorem assign_cases (used : UsedIds) (text : String) :
    (idText text = "" ∧ used.assign text = (none, used)) ∨
    (idText text ≠ "" ∧ used.uses (idText text) = false ∧
      used.assign text = (some (idText text), ⟨(idText text, 0) :: used.seen⟩)) ∨
    (idText text ≠ "" ∧ used.uses (idText text) = true ∧
      ∃ k, (used.seen.lookup (idText text)).getD 0 < k ∧ used.uses (numbered (idText text) k) = false ∧
        (∀ j, (used.seen.lookup (idText text)).getD 0 < j → j < k → used.uses (numbered (idText text) j) = true) ∧
        used.assign text =
          (some (numbered (idText text) k), ⟨(numbered (idText text) k, 0) :: (idText text, k) :: used.seen⟩)) := by
  unfold assign
  generalize idText text = base
  by_cases blank : base = ""
  · exact .inl ⟨blank, by simp [blank]⟩
  have written : base.isEmpty = false := by simpa using blank
  have free := uses_firstFree used base ((used.seen.lookup base).getD 0)
  by_cases inUse : used.uses base = true
  · obtain ⟨k, found, more, passed⟩ :=
      firstFree_numbered used base used.seen.length ((used.seen.lookup base).getD 0 + 1)
    rw [firstFree, if_pos inUse, found] at free
    refine .inr (.inr ⟨blank, inUse, k, more, free, fun j low high => passed j low high, ?_⟩)
    simp [written, firstFree, inUse, found, numbered_ne]
  · have absent : used.seen.lookup base = none := by
      rwa [uses, Bool.not_eq_true, Option.isSome_eq_false_iff, Option.isNone_iff_eq_none] at inUse
    refine .inr (.inl ⟨blank, by simpa using inUse, ?_⟩)
    simp [written, firstFree, inUse, absent]

/-! ## What is noted -/

/-- Each number up to the one that is noted with an id is in use. -/
def Counted (used : UsedIds) : Prop :=
  ∀ base k, 1 ≤ k → k ≤ (used.seen.lookup base).getD 0 → used.uses (numbered base k) = true

theorem counted_empty : Counted empty := by
  intro base k positive noted
  simp only [empty, List.lookup_nil, Option.getD_none] at noted
  omega

theorem Counted.assign (counted : used.Counted) (text : String) : (used.assign text).2.Counted := by
  have stays (other : String) : used.uses other = true → (used.assign text).2.uses other = true :=
    fun known => (uses_assign_after used text other).mpr (.inl known)
  obtain ⟨-, same⟩ | ⟨-, -, given⟩ | ⟨-, -, k, -, -, passed, given⟩ := assign_cases used text
  · rw [same]
    exact counted
  · intro base j positive noted
    rw [given] at noted ⊢
    simp only [given] at stays
    by_cases own : base = idText text
    · -- a new id begins with the number zero
      simp only [own, List.lookup_cons_self, Option.getD_some] at noted
      omega
    · rw [List.lookup_cons, beq_false_of_ne own] at noted
      exact stays _ (counted base j positive noted)
  · intro base j positive noted
    have fresh := (uses_assign_after used text (numbered (idText text) k)).mpr (.inr (by rw [given]))
    rw [given] at noted fresh ⊢
    simp only [given] at stays
    by_cases new : base = numbered (idText text) k
    · simp only [new, List.lookup_cons_self, Option.getD_some] at noted
      omega
    · rw [List.lookup_cons, beq_false_of_ne new] at noted
      by_cases own : base = idText text
      · -- up to the old number by assumption, behind it because the search passed there, and the last one is given now
        subst own
        simp only [List.lookup_cons_self, Option.getD_some] at noted
        by_cases last : j = k
        · rw [last, fresh]
        · by_cases old : j ≤ (used.seen.lookup (idText text)).getD 0
          · exact stays _ (counted _ j positive old)
          · exact stays _ (passed j (by omega) (by omega))
      · rw [List.lookup_cons, beq_false_of_ne own] at noted
        exact stays _ (counted base j positive noted)

/-- The search finds the least number, although it does not begin with one. -/
theorem Counted.idFor_assign (counted : used.Counted) (known : ∀ id, used.uses id = true ↔ id ∈ taken)
    (text : String) : IdFor taken text (used.assign text).1 := by
  have unknown (id : String) : used.uses id = false ↔ id ∉ taken := by rw [← known, Bool.not_eq_true]
  obtain ⟨nothing, same⟩ | ⟨something, free, given⟩ | ⟨something, inUse, k, more, free, passed, given⟩ :=
    assign_cases used text
  · rw [same]
    exact .blank nothing
  · rw [given]
    exact .own something ((unknown _).mp free)
  · rw [given]
    refine .withNumber something ((known _).mp inUse) ⟨⟨by omega, (unknown _).mp free⟩, fun j ⟨positive, new⟩ => ?_⟩
    by_contra less
    refine new ((known _).mp ?_)
    by_cases old : j ≤ (used.seen.lookup (idText text)).getD 0
    · exact counted _ j positive old
    · exact passed j (by omega) (by omega)

/-! ## All headings -/

theorem Counted.idFor_assignAll (counted : used.Counted) (known : ∀ id, used.uses id = true ↔ id ∈ taken)
    {n : Nat} (there : texts[n]? = some text) :
    ∃ id, (used.assignAll texts)[n]? = some id ∧
      IdFor (taken ++ ((used.assignAll texts).take n).reduceOption) text id := by
  induction texts generalizing used taken n with
  | nil => cases there
  | cons first texts ih =>
    cases n with
    | zero =>
      obtain rfl := Option.some.inj there
      exact ⟨_, rfl, by simpa using counted.idFor_assign known first⟩
    | succ n =>
      have after : ∀ id, (used.assign first).2.uses id = true ↔ id ∈ taken ++ (used.assign first).1.toList := by
        intro id
        rw [uses_assign_after, known, List.mem_append, Option.mem_toList]
      rw [List.getElem?_cons_succ] at there
      obtain ⟨id, given, least⟩ := ih (counted.assign first) after there
      rw [assignAll, List.getElem?_cons_succ, List.take_succ_cons]
      refine ⟨id, given, ?_⟩
      cases own : (used.assign first).1 with
      | none => simpa only [own, Option.toList_none, List.append_nil, List.reduceOption_cons_of_none] using least
      | some new => simpa only [own, Option.toList_some, List.append_assoc, List.singleton_append,
          List.reduceOption_cons_of_some] using least

/-- No id is given twice, nor one that was in use before. -/
theorem nodup_assignAll (used : UsedIds) (texts : List String) :
    (used.assignAll texts).reduceOption.Nodup ∧
      ∀ id ∈ (used.assignAll texts).reduceOption, used.uses id = false := by
  induction texts generalizing used with
  | nil => exact ⟨List.nodup_nil, fun _ absent => absurd absent List.not_mem_nil⟩
  | cons text texts ih =>
    obtain ⟨distinct, new⟩ := ih (used.assign text).2
    have newer : ∀ id ∈ ((used.assign text).2.assignAll texts).reduceOption,
        used.uses id = false ∧ (used.assign text).1 ≠ some id := by
      intro id later
      have unused := new id later
      rw [← Bool.not_eq_true, uses_assign_after, not_or, Bool.not_eq_true] at unused
      exact unused
    cases own : (used.assign text).1 with
    | none =>
      simp only [assignAll, own, List.reduceOption_cons_of_none]
      exact ⟨distinct, fun id later => (newer id later).1⟩
    | some first =>
      simp only [assignAll, own, List.reduceOption_cons_of_some, List.nodup_cons, List.forall_mem_cons]
      exact ⟨⟨fun later => (newer first later).2 own, distinct⟩, uses_assign_before own,
        fun id later => (newer id later).1⟩

/-- The headings of a page get the ids that they should get, each in view of those that were given before, and no two of
    these ids are the same. -/
theorem ids_of_texts (texts : List String) :
    (∀ n text, texts[n]? = some text →
      ∃ id, (empty.assignAll texts)[n]? = some id ∧ IdFor ((empty.assignAll texts).take n).reduceOption text id) ∧
    (empty.assignAll texts).reduceOption.Nodup := by
  refine ⟨fun n text there => ?_, (nodup_assignAll empty texts).1⟩
  have known : ∀ id, empty.uses id = true ↔ id ∈ ([] : List String) := fun id => by simp [uses, empty]
  simpa using counted_empty.idFor_assignAll known there

/-- The number one is taken by a heading that ends in it, so the second heading of the same text gets the number two. -/
theorem ids_of_literal_number :
    let texts := ["a-1", "a", "A"]
    texts[2]? = some "A" ∧ (empty.assignAll texts)[2]? = some (some "a-2") ∧
      IdFor ["a-1", "a"] "A" (some "a-2") := by
  have given : empty.assignAll ["a-1", "a", "A"] = [some "a-1", some "a", some "a-2"] := by decide +kernel
  obtain ⟨id, there, least⟩ := (ids_of_texts ["a-1", "a", "A"]).1 2 "A" rfl
  rw [given] at there least
  obtain rfl := Option.some.inj there
  exact ⟨rfl, by rw [given]; rfl, least⟩

end Galley.Heading.UsedIds
