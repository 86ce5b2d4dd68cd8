import GazeboRcll.Library.Strings
import Mathlib.Data.List.Perm.Subperm

/-!
# Replacing a text until it does not occur

A loop searches for a text from the beginning, replaces it by another, and searches again until
nothing is found. A replacement can complete an occurrence together with what is before or after
it. When it is one character shorter, and what the two texts share at their ends is at the same
place in both (`Replaces`), each turn leaves fewer occurrences than there were before, so that
the loop ends after at most as many turns as there are occurrences.
-/

namespace Strings

/-- The number of places at which a text occurs, those that overlap included. -/
def occurrences (old text : List Char) : ℕ := text.tails.countP fun rest => old.isPrefixOf rest

/-- The first occurrence replaced; `none` without an occurrence. -/
def replaceFirst (old new text : List Char) : Option (List Char) :=
  (findFrom old text).map fun pos => text.take pos ++ (new ++ text.drop (pos + old.length))

/-- The loop; `none` if it is not done after so many turns. -/
def replaceAll (old new : List Char) : ℕ → List Char → Option (List Char)
  | 0, text => if (replaceFirst old new text).isSome then none else some text
  | turns + 1, text =>
    match replaceFirst old new text with
    | none => some text
    | some text => replaceAll old new turns text

/-- An end of the old text that begins the new one begins the old one, and an end of the new text
that begins the old one ends the old one. -/
structure Replaces (old new : List Char) : Prop where
  length : old.length = new.length + 1
  left : ∀ x ∈ old.tails, x ≠ old → x <+: new → x <+: old
  right : ∀ x ∈ new.tails, x <+: old → x ∈ old.tails

instance (old new : List Char) : Decidable (Replaces old new) :=
  decidable_of_iff (old.length = new.length + 1 ∧
      (∀ x ∈ old.tails, x ≠ old → x <+: new → x <+: old) ∧
      ∀ x ∈ new.tails, x <+: old → x ∈ old.tails)
    ⟨fun h => ⟨h.1, h.2.1, h.2.2⟩, fun h => ⟨h.length, h.left, h.right⟩⟩

/-! ## Occurrences -/

theorem occurrences_pos {s text : List Char} (h : s <:+: text) : 0 < occurrences s text := by
  obtain ⟨before, rest, rfl⟩ := h
  rw [occurrences, List.countP_pos_iff]
  refine ⟨s ++ rest, ?_, List.isPrefixOf_iff_prefix.mpr (List.prefix_append _ _)⟩
  rw [List.mem_tails, List.append_assoc]
  exact List.suffix_append _ _

/-- The ends of a text have different lengths. -/
theorem nodup_tails (l : List Char) : l.tails.Nodup := by
  induction l with
  | nil => simp
  | cons c l ih =>
    rw [List.tails_cons]
    refine List.nodup_cons.mpr ⟨fun hmem => ?_, ih⟩
    have hle := ((List.mem_tails _ _).mp hmem).length_le
    rw [List.length_cons] at hle
    omega

/-- Characters before which nothing begins do not count. -/
theorem occurrences_append_of_not {s before text : List Char}
    (h : ∀ x ∈ before.tails, x ≠ [] → ¬ s <+: x ++ text) :
    occurrences s (before ++ text) = occurrences s text := by
  induction before with
  | nil => rfl
  | cons c before ih =>
    have hhead : s.isPrefixOf (c :: (before ++ text)) = false := by
      rw [← Bool.not_eq_true, List.isPrefixOf_iff_prefix]
      exact h (c :: before) (by simp) (List.cons_ne_nil _ _)
    rw [List.cons_append, occurrences, List.tails_cons, List.countP_cons_of_neg (by simp [hhead])]
    exact ih fun x hx => h x (by rw [List.tails_cons]; exact List.mem_cons_of_mem _ hx)

/-- Occurrences that begin in a text, and those that begin later. -/
theorem occurrences_append (s text rest : List Char) :
    occurrences s (text ++ rest) = text.tails.countP (fun x => s.isPrefixOf (x ++ rest)) +
      rest.tails.tail.countP fun x => s.isPrefixOf x := by
  rw [occurrences, List.tails_append, List.countP_append, List.countP_map]
  rfl

/-- Where a text is found first. -/
theorem exists_of_findFrom {s value : List Char} {pos : ℕ} (h : findFrom s value = some pos) :
    ∃ before rest, value = before ++ (s ++ rest) ∧ before.length = pos ∧
      ∀ x ∈ before.tails, x ≠ [] → ¬ s <+: x ++ (s ++ rest) := by
  induction value generalizing pos with
  | nil =>
    rw [findFrom] at h
    split_ifs at h with hs
    cases h
    exact ⟨[], [], by simp [hs], rfl, by simp⟩
  | cons c cs ih =>
    rw [findFrom] at h
    by_cases hhere : s.isPrefixOf (c :: cs) = true
    · rw [if_pos hhere] at h
      cases h
      obtain ⟨rest, hrest⟩ := List.isPrefixOf_iff_prefix.mp hhere
      exact ⟨[], rest, hrest.symm, rfl, by simp⟩
    · rw [if_neg hhere, Option.map_eq_some_iff] at h
      obtain ⟨pos', hpos', rfl⟩ := h
      obtain ⟨before, rest, rfl, rfl, hfirst⟩ := ih hpos'
      refine ⟨c :: before, rest, rfl, rfl, fun x hx hne => ?_⟩
      rw [List.tails_cons] at hx
      rcases List.mem_cons.mp hx with rfl | hx
      · exact fun hprefix => hhere (List.isPrefixOf_iff_prefix.mpr hprefix)
      · exact hfirst x hx hne

/-! ## One turn -/

section

variable {old new before rest : List Char}

/-- Nothing is replaced in a text in which nothing occurs. -/
theorem replaceFirst_eq_none (h : replaceFirst old new before = none) : ¬ old <:+: before := by
  rw [← findFrom_isSome_iff]
  rw [replaceFirst, Option.map_eq_none_iff] at h
  simp [h]

/-- Nothing begins before the replacement. -/
theorem Replaces.not_before (h : Replaces old new)
    (hfirst : ∀ x ∈ before.tails, x ≠ [] → ¬ old <+: x ++ (old ++ rest)) :
    ∀ x ∈ before.tails, x ≠ [] → ¬ old <+: x ++ (new ++ rest) := by
  intro x hx hne hprefix
  rcases List.prefix_or_prefix_of_prefix hprefix (List.prefix_append x _) with hin | hover
  · exact hfirst x hx hne (hin.trans (List.prefix_append x _))
  · -- the occurrence would begin in `x` and end in the new text, with `v`
    obtain ⟨v, rfl⟩ := hover
    rw [List.prefix_append_right_inj] at hprefix
    have hlength := h.length
    rw [List.length_append] at hlength
    have hpos : 0 < x.length := List.length_pos_iff.mpr hne
    have hnew : v <+: new :=
      List.prefix_of_prefix_length_le hprefix (List.prefix_append new rest) (by omega)
    have hne' : v ≠ x ++ v := by
      intro heq
      have hlen := congrArg List.length heq
      rw [List.length_append] at hlen
      omega
    have hleft := h.left v ((List.mem_tails _ _).mpr (List.suffix_append x v)) hne' hnew
    apply hfirst x hx hne
    rw [List.prefix_append_right_inj]
    exact hleft.trans (List.prefix_append _ _)

/-- Occurrences that begin in the new text begin in the old one, which has one more. -/
theorem Replaces.countP_lt (h : Replaces old new) (rest : List Char) :
    new.tails.countP (fun x => old.isPrefixOf (x ++ rest)) <
      old.tails.countP fun x => old.isPrefixOf (x ++ rest) := by
  have hlength := h.length
  have hnodup : (old :: new.tails.filter fun x => old.isPrefixOf (x ++ rest)).Nodup := by
    refine List.nodup_cons.mpr ⟨fun hmem => ?_, (nodup_tails new).filter _⟩
    have hle := ((List.mem_tails _ _).mp (List.mem_filter.mp hmem).1).length_le
    omega
  have hsubset : (old :: new.tails.filter fun x => old.isPrefixOf (x ++ rest)) ⊆
      old.tails.filter fun x => old.isPrefixOf (x ++ rest) := by
    intro x hx
    rw [List.mem_filter]
    rcases List.mem_cons.mp hx with rfl | hx
    · exact ⟨(List.mem_tails _ _).mpr (List.suffix_refl x),
        List.isPrefixOf_iff_prefix.mpr (List.prefix_append x rest)⟩
    · obtain ⟨htail, hprefix⟩ := List.mem_filter.mp hx
      have hle := ((List.mem_tails _ _).mp htail).length_le
      -- the occurrence is longer than what it begins with
      have hx' : x <+: old := List.prefix_of_prefix_length_le (List.prefix_append x rest)
        (List.isPrefixOf_iff_prefix.mp hprefix) (by omega)
      exact ⟨h.right x htail hx', hprefix⟩
  rw [List.countP_eq_length_filter, List.countP_eq_length_filter]
  exact (List.subperm_of_subset hnodup hsubset).length_le

/-- With the first occurrence replaced there are fewer. -/
theorem Replaces.occurrences_lt (h : Replaces old new)
    (hfirst : ∀ x ∈ before.tails, x ≠ [] → ¬ old <+: x ++ (old ++ rest)) :
    occurrences old (before ++ (new ++ rest)) < occurrences old (before ++ (old ++ rest)) := by
  rw [occurrences_append_of_not (h.not_before hfirst), occurrences_append_of_not hfirst,
    occurrences_append, occurrences_append]
  exact Nat.add_lt_add_right (h.countP_lt rest) _

/-- A turn leaves fewer occurrences. -/
theorem Replaces.replaceFirst_lt (h : Replaces old new) {text text' : List Char}
    (hs : replaceFirst old new text = some text') :
    occurrences old text' < occurrences old text := by
  obtain ⟨pos, hpos, rfl⟩ := Option.map_eq_some_iff.mp hs
  obtain ⟨before, rest, rfl, rfl, hfirst⟩ := exists_of_findFrom hpos
  have hdrop : (before ++ (old ++ rest)).drop (before.length + old.length) = rest := by
    rw [← List.drop_drop, List.drop_left, List.drop_left]
  rw [List.take_left, hdrop]
  exact h.occurrences_lt hfirst

/-! ## The loop -/

/-- The loop is done after as many turns as there are occurrences, and none is left. -/
theorem Replaces.replaceAll_terminates (h : Replaces old new) {turns : ℕ} {text : List Char}
    (hturns : occurrences old text ≤ turns) :
    ∃ result, replaceAll old new turns text = some result ∧ ¬ old <:+: result := by
  induction turns generalizing text with
  | zero =>
    have hnot : ¬ old <:+: text := fun hinfix => by
      have hpos := occurrences_pos hinfix
      omega
    have hnone : replaceFirst old new text = none := by
      rw [replaceFirst, Option.map_eq_none_iff, ← Option.not_isSome_iff_eq_none,
        findFrom_isSome_iff]
      exact hnot
    exact ⟨text, by rw [replaceAll, hnone]; rfl, hnot⟩
  | succ turns ih =>
    rw [replaceAll]
    cases hs : replaceFirst old new text with
    | none => exact ⟨text, rfl, replaceFirst_eq_none hs⟩
    | some text' =>
      have hlt := h.replaceFirst_lt hs
      exact ih (by omega)

end

/-! ## What the loop makes of a text -/

section

variable {old new text text' result before rest l l' r r' : List Char} {c : Char}

/-- What a text becomes when the first occurrence is replaced again and again. -/
inductive Replaced (old new : List Char) : List Char → List Char → Prop where
  | done {text : List Char} (h : replaceFirst old new text = none) : Replaced old new text text
  | turn {text text' result : List Char} (h : replaceFirst old new text = some text')
      (hr : Replaced old new text' result) : Replaced old new text result

/-- The loop replaces the first occurrence again and again. -/
theorem replaced_of_replaceAll {turns : ℕ} (h : replaceAll old new turns text = some result) :
    Replaced old new text result := by
  induction turns generalizing text with
  | zero =>
    rw [replaceAll] at h
    split_ifs at h with hnone
    cases h
    exact .done (Option.not_isSome_iff_eq_none.mp hnone)
  | succ turns ih =>
    rw [replaceAll] at h
    cases hs : replaceFirst old new text with
    | none =>
      rw [hs] at h
      cases h
      exact .done hs
    | some text' =>
      rw [hs] at h
      exact .turn hs (ih h)

/-- There is one result. -/
theorem Replaced.unique (h : Replaced old new text l) (h' : Replaced old new text r) : l = r := by
  induction h with
  | done hs =>
    cases h' with
    | done => rfl
    | turn hs' =>
      rw [hs] at hs'
      cases hs'
  | turn hs hr ih =>
    cases h' with
    | done hs' =>
      rw [hs] at hs'
      cases hs'
    | turn hs' hr' =>
      rw [hs] at hs'
      cases hs'
      exact ih hr'

/-- There is a result. -/
theorem Replaces.exists_replaced (h : Replaces old new) (text : List Char) :
    ∃ result, Replaced old new text result := by
  have hturns : occurrences old text ≤ occurrences old text := le_refl _
  obtain ⟨result, hresult, -⟩ := h.replaceAll_terminates hturns
  exact ⟨result, replaced_of_replaceAll hresult⟩

theorem replaceFirst_of_findFrom (new : List Char) (rest : List Char)
    (h : findFrom old (before ++ (old ++ rest)) = some before.length) :
    replaceFirst old new (before ++ (old ++ rest)) = some (before ++ (new ++ rest)) := by
  rw [replaceFirst, h, Option.map_some, List.take_left, ← List.drop_drop, List.drop_left,
    List.drop_left]

/-- What is before and after the first occurrence. -/
theorem exists_of_replaceFirst (h : replaceFirst old new text = some text') :
    ∃ before rest, text = before ++ (old ++ rest) ∧ text' = before ++ (new ++ rest) ∧
      findFrom old text = some before.length ∧
      ∀ x ∈ before.tails, x ≠ [] → ¬ old <+: x ++ (old ++ rest) := by
  obtain ⟨pos, hpos, rfl⟩ := Option.map_eq_some_iff.mp h
  obtain ⟨before, rest, rfl, rfl, hfirst⟩ := exists_of_findFrom hpos
  refine ⟨before, rest, rfl, ?_, hpos, hfirst⟩
  rw [List.take_left, ← List.drop_drop, List.drop_left, List.drop_left]

/-- What comes after does not matter for the first occurrence. -/
theorem replaceFirst_append_left (h : replaceFirst old new l = some l') (r : List Char) :
    replaceFirst old new (l ++ r) = some (l' ++ r) := by
  obtain ⟨before, rest, rfl, rfl, hpos, -⟩ := exists_of_replaceFirst h
  have hpos' := findFrom_append_left hpos r
  rw [List.append_assoc, List.append_assoc] at hpos' ⊢
  rw [List.append_assoc, List.append_assoc]
  exact replaceFirst_of_findFrom new _ hpos'

/-- What is before the first occurrence stays. -/
theorem replaceFirst_append_of_not (h : ∀ x ∈ l.tails, x ≠ [] → ¬ old <+: x ++ text) :
    replaceFirst old new (l ++ text) = (replaceFirst old new text).map (l ++ ·) := by
  rw [replaceFirst, replaceFirst, findFrom_append_of_not h, Option.map_map, Option.map_map]
  congr 1
  funext pos
  show (l ++ text).take (l.length + pos) ++ _ = l ++ (text.take pos ++ _)
  rw [List.take_length_add_append, Nat.add_assoc, List.drop_length_add_append, List.append_assoc]

theorem replaceFirst_self (new rest : List Char) (hold : old ≠ []) :
    replaceFirst old new (old ++ rest) = some (new ++ rest) := by
  obtain ⟨c, cs, rfl⟩ := List.exists_cons_of_ne_nil hold
  have hpre : (c :: cs).isPrefixOf ((c :: cs) ++ rest) = true :=
    List.isPrefixOf_iff_prefix.mpr (List.prefix_append _ _)
  have hfind : findFrom (c :: cs) ([] ++ ((c :: cs) ++ rest)) = some ([] : List Char).length :=
    if_pos hpre
  exact replaceFirst_of_findFrom new rest hfind

/-- Nothing begins in a text of which no end begins the old text. -/
theorem not_begins_of_not_prefix (hlength : l.length ≤ old.length)
    (h : ∀ x ∈ l.tails, x ≠ [] → ¬ x <+: old) (text : List Char) :
    ∀ x ∈ l.tails, x ≠ [] → ¬ old <+: x ++ text := by
  intro x hx hne hpre
  have hle := ((List.mem_tails _ _).mp hx).length_le
  exact h x hx hne
    (List.prefix_of_prefix_length_le (List.prefix_append x text) hpre (by omega))

/-- The loop does nothing before the place where the first occurrence can begin. -/
theorem Replaced.append (h : Replaces old new) (hr : Replaced old new text result)
    (hl : ∀ x ∈ l.tails, x ≠ [] → ¬ old <+: x ++ text) :
    Replaced old new (l ++ text) (l ++ result) := by
  induction hr with
  | done hs =>
    apply Replaced.done
    rw [replaceFirst_append_of_not hl, hs]
    rfl
  | turn hs hr ih =>
    obtain ⟨before, rest, rfl, rfl, -, hfirst⟩ := exists_of_replaceFirst hs
    have hbefore : ∀ x ∈ (l ++ before).tails, x ≠ [] → ¬ old <+: x ++ (old ++ rest) := by
      intro x hx hne
      rw [List.tails_append, List.mem_append, List.mem_map] at hx
      -- what begins in `l` begins there already without the replacement
      rcases hx with ⟨y, hy, rfl⟩ | hx
      · by_cases hnil : y = []
        · subst hnil
          exact hfirst before (by simp) hne
        · rw [List.append_assoc]
          exact hl y hy hnil
      · exact hfirst x (List.mem_of_mem_tail hx) hne
    have hturn : replaceFirst old new (l ++ (before ++ (old ++ rest))) =
        some (l ++ (before ++ (new ++ rest))) := by
      rw [replaceFirst_append_of_not hl, hs]
      rfl
    refine .turn hturn (ih fun x hx hne => ?_)
    rw [← List.append_assoc]
    refine h.not_before hbefore (x ++ before) ?_ (List.append_ne_nil_of_left_ne_nil hne _)
    rw [List.tails_append]
    exact List.mem_append_left _ (List.mem_map_of_mem hx)

/-- Nothing is replaced across a character that the old text does not have. -/
theorem Replaced.append_cons (h : Replaces old new) (hc : c ∉ old) (hl : Replaced old new l l')
    (hr : Replaced old new r r') : Replaced old new (l ++ c :: r) (l' ++ c :: r') := by
  induction hl with
  -- what is replaced on the left is replaced first
  | turn hs hl ih => exact .turn (replaceFirst_append_left hs _) ih
  | @done l hs =>
    have hnot := replaceFirst_eq_none hs
    rw [List.append_cons, List.append_cons l c r']
    refine hr.append h fun x hx hne hpre => ?_
    -- an occurrence over the border would end with the character
    obtain ⟨y, rfl⟩ : ∃ y, x = y ++ [c] := by
      obtain ⟨z, hz⟩ := (List.mem_tails _ _).mp hx
      rcases List.eq_nil_or_concat' x with rfl | ⟨y, d, rfl⟩
      · exact absurd rfl hne
      · rw [← List.append_assoc] at hz
        obtain ⟨-, hd⟩ := List.append_inj' hz rfl
        exact ⟨y, by rw [hd]⟩
    have hy : y <:+ l := by
      obtain ⟨z, hz⟩ := (List.mem_tails _ _).mp hx
      rw [← List.append_assoc] at hz
      exact ⟨z, (List.append_inj' hz rfl).1⟩
    rw [List.append_assoc, List.singleton_append] at hpre
    rcases List.prefix_or_prefix_of_prefix hpre (List.prefix_append y (c :: r)) with hin | hover
    · exact hnot (hin.isInfix.trans hy.isInfix)
    · -- the occurrence would have the character
      obtain ⟨v, rfl⟩ := hover
      rw [List.prefix_append_right_inj] at hpre
      cases v with
      | nil =>
        rw [List.append_nil] at hnot
        exact hnot hy.isInfix
      | cons d v =>
        obtain ⟨rfl, -⟩ := List.cons_prefix_cons.mp hpre
        exact hc (List.mem_append_right y List.mem_cons_self)

/-- Characters of neither text stay. -/
theorem Replaced.mem_iff (hr : Replaced old new text result) (hold : c ∉ old) (hnew : c ∉ new) :
    c ∈ result ↔ c ∈ text := by
  induction hr with
  | done hs => rfl
  | turn hs hr ih =>
    obtain ⟨before, rest, rfl, rfl, -, -⟩ := exists_of_replaceFirst hs
    rw [ih]
    simp [hold, hnew]

end

/-! ## Texts that stay -/

/-- No end of `s` is in `x`, and not all of `x` is in `s`. -/
structure Apart (s x : List Char) : Prop where
  head : ∀ c ∈ s.head?, c ∉ x
  last : ∀ c ∈ s.getLast?, c ∉ x
  outside : ∃ c ∈ x, c ∉ s

instance (s x : List Char) : Decidable (Apart s x) :=
  decidable_of_iff ((s.head?.all fun c => !x.contains c) = true ∧
      (s.getLast?.all fun c => !x.contains c) = true ∧ (x.any fun c => !s.contains c) = true) <| by
    constructor
    · rintro ⟨hhead, hlast, houtside⟩
      exact ⟨by simpa [Option.all_eq_true] using hhead,
        by simpa [Option.all_eq_true] using hlast, by simpa using houtside⟩
    · rintro ⟨hhead, hlast, houtside⟩
      exact ⟨by simpa [Option.all_eq_true] using hhead,
        by simpa [Option.all_eq_true] using hlast, by simpa using houtside⟩

/-- What occurs around `x` occurs on one side of it. -/
theorem Apart.infix_iff {s x : List Char} (h : Apart s x) (l r : List Char) :
    s <:+: l ++ (x ++ r) ↔ s <:+: l ∨ s <:+: r := by
  constructor
  · intro hocc
    rcases List.infix_append_iff.mp hocc with hl | hxr | ⟨u, v, rfl, hu, hv⟩
    · exact .inl hl
    · rcases List.infix_append_iff.mp hxr with hx | hr | ⟨u, v, rfl, hu, hv⟩
      · cases s with
        | nil => exact .inl List.nil_infix
        | cons c s => exact absurd (hx.subset List.mem_cons_self) (h.head c rfl)
      · exact .inr hr
      · cases u with
        | nil => exact .inr hv.isInfix
        | cons c u => exact absurd (hu.subset List.mem_cons_self) (h.head c rfl)
    · rcases List.eq_nil_or_concat' v with rfl | ⟨v, d, rfl⟩
      · rw [List.append_nil]
        exact .inl hu.isInfix
      · rcases List.prefix_or_prefix_of_prefix hv (List.prefix_append x r) with hvx | hxv
        · refine absurd (hvx.subset List.mem_concat_self) (h.last d ?_)
          rw [← List.append_assoc, List.getLast?_concat]
          rfl
        · obtain ⟨c, hc, hnot⟩ := h.outside
          exact absurd (List.mem_append_right u (hxv.subset hc)) hnot
  · rintro (hl | hr)
    · exact hl.trans (List.prefix_append l _).isInfix
    · exact hr.trans ((List.suffix_append x r).trans (List.suffix_append l _)).isInfix

/-- A text that is apart from both occurs afterwards if it did before. -/
theorem Replaced.infix_iff {s old new text result : List Char}
    (hr : Replaced old new text result) (hold : Apart s old) (hnew : Apart s new) :
    s <:+: result ↔ s <:+: text := by
  induction hr with
  | done hs => rfl
  | turn hs hr ih =>
    obtain ⟨before, rest, rfl, rfl, -, -⟩ := exists_of_replaceFirst hs
    rw [ih, hold.infix_iff, hnew.infix_iff]

end Strings
