/-!
# Loops with an early exit

A turn of a loop over a list ends with `next`, at the end of the body or by `continue`, or
with `leave`, by a `return` out of the whole loop.
-/

namespace Loop

variable {α σ : Type}

/-- How a turn of a loop ends, and the state it leaves behind. -/
inductive Turn (σ : Type) where
  | next (s : σ)
  | leave (s : σ)

def Turn.state : Turn σ → σ
  | .next s | .leave s => s

/-- One turn for every element, until one leaves. -/
def forEach (body : σ → α → Turn σ) : σ → List α → Turn σ
  | s, [] => .next s
  | s, a :: l =>
    match body s a with
    | .next s' => forEach body s' l
    | .leave s' => .leave s'

variable {body : σ → α → Turn σ}

/-- A turn that goes on. -/
theorem forEach_cons_of_next {s s' : σ} {a : α} (h : body s a = .next s') (l : List α) :
    forEach body s (a :: l) = forEach body s' l := by
  rw [forEach, h]

/-- A turn that leaves the loop. -/
theorem forEach_cons_of_leave {s s' : σ} {a : α} (h : body s a = .leave s') (l : List α) :
    forEach body s (a :: l) = .leave s' := by
  rw [forEach, h]

/-- What every turn keeps holds after the loop. -/
theorem forEach_invariant {P : σ → Prop} (hbody : ∀ s a, P s → P (body s a).state)
    {s : σ} (hs : P s) (l : List α) : P (forEach body s l).state := by
  induction l generalizing s with
  | nil => exact hs
  | cons a l ih =>
    have hturn := hbody s a hs
    cases hb : body s a with
    | next s' =>
      rw [forEach_cons_of_next hb]
      rw [hb] at hturn
      exact ih hturn
    | leave s' =>
      rw [forEach_cons_of_leave hb]
      rw [hb] at hturn
      exact hturn

/-- A loop comes to its end, or it leaves in the turn of some element. -/
theorem forEach_next_or_leave (body : σ → α → Turn σ) (s : σ) (l : List α) :
    (∃ s', forEach body s l = .next s') ∨
      ∃ done a rest s' s'', l = done ++ a :: rest ∧ forEach body s done = .next s' ∧
        body s' a = .leave s'' ∧ forEach body s l = .leave s'' := by
  induction l generalizing s with
  | nil => exact .inl ⟨s, rfl⟩
  | cons a l ih =>
    cases hb : body s a with
    | leave s'' => exact .inr ⟨[], a, l, s, s'', rfl, rfl, hb, forEach_cons_of_leave hb l⟩
    | next t =>
      rw [forEach_cons_of_next hb]
      rcases ih t with hend | ⟨done, b, rest, s', s'', rfl, hdone, hleave, hl⟩
      · exact .inl hend
      · refine .inr ⟨a :: done, b, rest, s', s'', rfl, ?_, hleave, hl⟩
        rw [forEach_cons_of_next hb]
        exact hdone

/-! ## Loops that collect results -/

section

variable {β ε : Type}

/-- What every turn that does not throw keeps holds after the loop. -/
theorem foldlM_invariant {f : σ → α → Except ε σ} {P : σ → Prop}
    (hf : ∀ s a s', P s → f s a = .ok s' → P s') {l : List α} {s s' : σ} (hs : P s)
    (h : l.foldlM f s = .ok s') : P s' := by
  induction l generalizing s with
  | nil =>
    obtain rfl : s = s' := Except.ok.inj h
    exact hs
  | cons a l ih =>
    rw [List.foldlM_cons] at h
    cases hturn : f s a with
    | error e =>
      rw [hturn] at h
      nomatch h
    | ok t =>
      rw [hturn] at h
      exact ih (hf s a t hs hturn) h

/-- No turn fails. -/
theorem mapM_eq_some {f : α → Option β} {g : α → β} {l : List α}
    (h : ∀ a ∈ l, f a = some (g a)) : l.mapM f = some (l.map g) := by
  induction l with
  | nil => rfl
  | cons a l ih =>
    rw [List.mapM_cons, h a List.mem_cons_self, ih fun b hb => h b (List.mem_cons_of_mem a hb)]
    rfl

/-- All turns have a result. -/
theorem mapM_isSome_iff {f : α → Option β} (l : List α) :
    (l.mapM f).isSome = true ↔ ∀ a ∈ l, (f a).isSome = true := by
  induction l with
  | nil => exact iff_of_true rfl nofun
  | cons a l ih =>
    rw [List.forall_mem_cons, ← ih, List.mapM_cons]
    cases f a with
    | none => exact iff_of_false nofun fun h => nomatch h.1
    | some b => cases l.mapM f <;> simp

end

/-! ## Loops that return the first match -/

/-- A weaker test finds the same as a stronger one exactly if before everything that only the
weaker one accepts there is something that both accept. -/
theorem find?_eq_find?_iff {p q : α → Bool} {l : List α} (h : ∀ a ∈ l, q a = true → p a = true) :
    l.find? p = l.find? q ↔
      ∀ before a after, l = before ++ a :: after → p a = true →
        q a = true ∨ ∃ b ∈ before, q b = true := by
  induction l with
  | nil =>
    refine iff_of_true rfl fun before a after hl => ?_
    cases before <;> cases hl
  | cons x l ih =>
    by_cases hq : q x = true
    -- both find the first element
    · rw [List.find?_cons_of_pos hq, List.find?_cons_of_pos (h x List.mem_cons_self hq)]
      refine iff_of_true rfl fun before a after hl _ => ?_
      rw [List.cons_eq_append_iff] at hl
      rcases hl with ⟨rfl, ha⟩ | ⟨before, rfl, _⟩
      · rw [(List.cons.inj ha).1]
        exact .inl hq
      · exact .inr ⟨x, List.mem_cons_self, hq⟩
    · rw [List.find?_cons_of_neg hq]
      by_cases hp : p x = true
      -- only one of them does
      · rw [List.find?_cons_of_pos hp]
        apply iff_of_false
        · intro heq
          exact hq (List.find?_some heq.symm)
        · intro hall
          rcases hall [] x l rfl hp with hx | ⟨b, hb, _⟩
          · exact hq hx
          · cases hb
      · rw [List.find?_cons_of_neg hp, ih fun a ha => h a (List.mem_cons_of_mem x ha)]
        constructor
        · intro hall before a after hl ha
          cases before with
          | nil =>
            rw [← (List.cons.inj hl).1] at ha
            exact absurd ha hp
          | cons y before =>
            rcases hall before a after (List.cons.inj hl).2 ha with ha | ⟨b, hb, hqb⟩
            · exact .inl ha
            · exact .inr ⟨b, List.mem_cons_of_mem y hb, hqb⟩
        · intro hall before a after hl ha
          rcases hall (x :: before) a after (by rw [hl]; rfl) ha with ha | ⟨b, hb, hqb⟩
          · exact .inl ha
          · rcases List.mem_cons.mp hb with rfl | hb
            · exact absurd hqb hq
            · exact .inr ⟨b, hb, hqb⟩

end Loop
