import Mathlib.Data.List.Forall2

/-!
The matcher behind LIKE. `LikeMatch` walks the string and the pattern with one position in each and keeps only the
last `%` to go back to: that one then takes one more byte of the string. A pattern denotes the strings that are cut
into one run for each of its bytes.
-/

namespace BumbleBee.Expression

def percent : UInt8 := 37

def underscore : UInt8 := 95

/-- The loop over the string, with fuel. A position stands as the bytes from it on: `star` is the string from where
the last `%` started matching, and the pattern behind that `%`. -/
def likeLoop : Nat → List UInt8 → List UInt8 → Option (List UInt8 × List UInt8) → Option Bool
  | 0, _, _, _ => none
  | _ + 1, [], p, _ => some (p.dropWhile (· == percent)).isEmpty
  | fuel + 1, c :: s, p, star =>
    if p.head? = some percent then likeLoop fuel (c :: s) p.tail (some (c :: s, p.tail))
    else if p.head? = some underscore ∨ p.head? = some c then likeLoop fuel s p.tail star
    else match star with
      | some (started, rest) => likeLoop fuel started.tail rest (some (started.tail, rest))
      | none => some false

def likeMatch (fuel : Nat) (s p : List UInt8) : Option Bool :=
  likeLoop fuel s p none

/-- What one byte of a pattern stands for. -/
def Stands (b : UInt8) (run : List UInt8) : Prop :=
  if b = percent then True else if b = underscore then run.length = 1 else run = [b]

/-- The string is cut into runs, one for each byte of the pattern. -/
def Likes (p s : List UInt8) : Prop :=
  ∃ runs : List (List UInt8), List.Forall₂ Stands p runs ∧ runs.flatten = s

variable {b c : UInt8} {p q r s t u : List UInt8} {star : Option (List UInt8 × List UInt8)}

theorem likes_nil : Likes [] s ↔ s = [] := by
  constructor
  · intro ⟨runs, stands, whole⟩
    cases stands
    exact whole.symm
  · intro empty
    exact ⟨[], .nil, empty.symm⟩

theorem likes_cons : Likes (b :: p) s ↔ ∃ run rest, s = run ++ rest ∧ Stands b run ∧ Likes p rest := by
  constructor
  · intro ⟨runs, stands, whole⟩
    cases stands with
    | cons first others => exact ⟨_, _, whole.symm, first, _, others, rfl⟩
  · intro ⟨run, rest, split, first, runs, others, whole⟩
    exact ⟨run :: runs, .cons first others, by rw [List.flatten_cons, whole, split]⟩

theorem likes_percent : Likes (percent :: p) s ↔ ∃ k, Likes p (s.drop k) := by
  rw [likes_cons]
  constructor
  · intro ⟨run, rest, split, _, likes⟩
    exact ⟨run.length, by rwa [split, List.drop_left]⟩
  · intro ⟨k, likes⟩
    exact ⟨s.take k, s.drop k, (List.take_append_drop k s).symm, by simp [Stands], likes⟩

theorem likes_percent_cons : Likes (percent :: p) (c :: s) ↔ Likes p (c :: s) ∨ Likes (percent :: p) s := by
  rw [likes_percent, likes_percent]
  constructor
  · intro ⟨k, likes⟩
    cases k with
    | zero => exact .inl likes
    | succ k => exact .inr ⟨k, likes⟩
  · rintro (likes | ⟨k, likes⟩)
    · exact ⟨0, likes⟩
    · exact ⟨k + 1, likes⟩

theorem likes_literal (literal : b ≠ percent) :
    Likes (b :: p) s ↔ ∃ c rest, s = c :: rest ∧ (b = underscore ∨ b = c) ∧ Likes p rest := by
  rw [likes_cons]
  constructor
  · intro ⟨run, rest, split, stands, likes⟩
    rw [Stands, if_neg literal] at stands
    split at stands
    · obtain ⟨c, rfl⟩ := List.length_eq_one_iff.mp stands
      exact ⟨c, rest, split, .inl ‹_›, likes⟩
    · exact ⟨b, rest, by rw [split, stands]; rfl, .inr rfl, likes⟩
  · intro ⟨c, rest, split, same, likes⟩
    refine ⟨[c], rest, split, ?_, likes⟩
    rw [Stands, if_neg literal]
    split
    · rfl
    · rw [same.resolve_left ‹_›]

/-- The bytes of a pattern before a `%` take as many bytes of the string. -/
theorem Likes.passed (plain : percent ∉ q) (likes : Likes (q ++ p) s) :
    q.length ≤ s.length ∧ Likes p (s.drop q.length) := by
  induction q generalizing s with
  | nil => exact ⟨Nat.zero_le _, likes⟩
  | cons b q ih =>
    simp only [List.mem_cons, not_or] at plain
    obtain ⟨c, rest, rfl, _, likes⟩ := (likes_literal (Ne.symm plain.1)).mp likes
    obtain ⟨long, likes⟩ := ih plain.2 likes
    exact ⟨by simpa using long, likes⟩

theorem likes_empty : Likes p [] ↔ (p.dropWhile (· == percent)).isEmpty = true := by
  induction p with
  | nil => simp [likes_nil]
  | cons b p ih =>
    by_cases wild : b = percent
    · rw [wild, likes_percent]
      simpa using ih
    · simp [likes_literal wild, wild]

/-- What lies between the last `%` and the positions has no `%` and is as long in the string as in the pattern. -/
def Anchored (s p : List UInt8) (star : Option (List UInt8 × List UInt8)) : Prop :=
  ∀ t r, star = some (t, r) → ∃ u q, t = u ++ s ∧ r = q ++ p ∧ q.length = u.length ∧ percent ∉ q

/-- The answer still open in a state of the loop: the rests match, or the last `%` takes more. -/
def Open (s p : List UInt8) (star : Option (List UInt8 × List UInt8)) : Prop :=
  Likes p s ∨ ∃ t r, star = some (t, r) ∧ Likes (percent :: r) t.tail

/-- From here the loop comes to an end, and with this answer. -/
def Settles (s p : List UInt8) (star : Option (List UInt8 × List UInt8)) (truth : Prop) : Prop :=
  ∃ bound, ∀ fuel ≥ bound, ∃ answer, likeLoop fuel s p star = some answer ∧ (answer = true ↔ truth)

theorem Settles.step {s' p' : List UInt8} {star' : Option (List UInt8 × List UInt8)} {truth truth' : Prop}
    (settles : Settles s' p' star' truth') (same : truth ↔ truth')
    (unfolds : ∀ fuel, likeLoop (fuel + 1) s p star = likeLoop fuel s' p' star') : Settles s p star truth := by
  obtain ⟨bound, settled⟩ := settles
  refine ⟨bound + 1, fun fuel enough => ?_⟩
  obtain ⟨fuel, rfl⟩ : ∃ k, fuel = k + 1 := ⟨fuel - 1, by omega⟩
  obtain ⟨answer, returned, correct⟩ := settled fuel (by omega)
  exact ⟨answer, (unfolds fuel).trans returned, correct.trans same.symm⟩

theorem Settles.now {truth : Prop} (answer : Bool) (correct : answer = true ↔ truth)
    (returned : ∀ fuel, likeLoop (fuel + 1) s p star = some answer) : Settles s p star truth := by
  refine ⟨1, fun fuel enough => ?_⟩
  obtain ⟨fuel, rfl⟩ : ∃ k, fuel = k + 1 := ⟨fuel - 1, by omega⟩
  exact ⟨answer, returned fuel, correct⟩

/-- A later `%` makes going back to an earlier one needless. -/
theorem Anchored.superseded (anchored : Anchored s (percent :: p) star) :
    Open s (percent :: p) star ↔ Likes (percent :: p) s := by
  refine ⟨fun opened => ?_, .inl⟩
  obtain likes | ⟨t, r, rfl, likes⟩ := opened
  · exact likes
  obtain ⟨u, q, rfl, rfl, long, plain⟩ := anchored t r rfl
  obtain ⟨k, likes⟩ := likes_percent.mp likes
  obtain ⟨j, likes⟩ := likes_percent.mp (likes.passed plain).2
  refine likes_percent.mpr ⟨k + j + 1, ?_⟩
  have rest : ((((u ++ s).tail).drop k).drop q.length).drop j = s.drop (k + j + 1) := by
    rw [← List.drop_one, List.drop_drop, List.drop_drop, List.drop_drop, List.drop_append,
      List.drop_eq_nil_of_le (by omega), List.nil_append]
    congr 1
    omega
  rwa [rest] at likes

/-- When the rests do not match, the last `%` takes one more byte. -/
theorem Anchored.retried (anchored : Anchored (c :: s) p (some (t, r))) (mismatch : ¬ Likes p (c :: s)) :
    Open (c :: s) p (some (t, r)) ↔ Open t.tail r (some (t.tail, r)) := by
  obtain ⟨u, q, rfl, -, -⟩ := anchored t r rfl
  have more : Likes (percent :: r) (u ++ c :: s).tail ↔
      Likes r (u ++ c :: s).tail ∨ Likes (percent :: r) (u ++ c :: s).tail.tail := by
    cases (u ++ c :: s).tail with
    | nil => simp [likes_percent]
    | cons d rest => exact likes_percent_cons
  simp [Open, mismatch, more]

/-- At the end of the string the last `%` cannot take more than it has. -/
theorem Anchored.ended (anchored : Anchored [] p star) : Open [] p star ↔ Likes p [] := by
  refine ⟨fun opened => ?_, .inl⟩
  obtain likes | ⟨t, r, rfl, likes⟩ := opened
  · exact likes
  obtain ⟨u, q, rfl, rfl, long, plain⟩ := anchored t r rfl
  obtain ⟨k, likes⟩ := likes_percent.mp likes
  obtain ⟨fits, likes⟩ := likes.passed plain
  simp only [List.append_nil, List.length_drop, List.length_tail] at fits
  have none : u = [] := List.eq_nil_of_length_eq_zero (by omega)
  simpa [none, long] using likes

theorem likeLoop_settles (s p : List UInt8) (star : Option (List UInt8 × List UInt8)) (anchored : Anchored s p star) :
    Settles s p star (Open s p star) := by
  match s with
  | [] => exact .now _ (likes_empty.symm.trans anchored.ended.symm) fun _ => rfl
  | c :: s =>
    by_cases wild : p.head? = some percent
    · obtain ⟨p, rfl⟩ := List.head?_eq_some_iff.mp wild
      refine (likeLoop_settles (c :: s) p (some (c :: s, p)) ?_).step ?_ fun fuel => by simp [likeLoop]
      · rintro t r ⟨⟩
        exact ⟨[], [], rfl, rfl, rfl, by simp⟩
      · rw [anchored.superseded, likes_percent_cons]
        simp [Open]
    by_cases same : p.head? = some underscore ∨ p.head? = some c
    · obtain ⟨b, p, rfl⟩ : ∃ b p', p = b :: p' := by cases p <;> simp_all
      simp only [List.head?_cons, Option.some.injEq] at wild same
      refine (likeLoop_settles s p star ?_).step ?_ fun fuel => by simp [likeLoop, wild, same]
      · intro t r here
        obtain ⟨u, q, rfl, rfl, long, plain⟩ := anchored t r here
        exact ⟨u ++ [c], q ++ [b], by simp, by simp, by simp [long], by simp [plain, Ne.symm wild]⟩
      · simp [Open, likes_literal wild, same]
    have mismatch : ¬ Likes p (c :: s) := by
      cases p with
      | nil => simp [likes_nil]
      | cons b p =>
        simp only [List.head?_cons, Option.some.injEq] at wild same
        simp [likes_literal wild, same]
    match star with
    | none => exact .now false (by simp [Open, mismatch]) fun _ => by simp [likeLoop, wild, same]
    | some (t, r) =>
      refine (likeLoop_settles t.tail r (some (t.tail, r)) ?_).step (anchored.retried mismatch) fun fuel => by
        simp [likeLoop, wild, same]
      rintro _ _ ⟨⟩
      exact ⟨[], [], rfl, rfl, rfl, by simp⟩
termination_by (star.elim (p.length + 1) (·.2.length), star.elim 0 (·.1.length), s.length)
decreasing_by
  · rename_i whole
    cases star with
    | none => exact .left _ _ (by simp only [whole, Option.elim, List.length_cons]; omega)
    | some held =>
      obtain ⟨u, q, -, behind, -⟩ := anchored held.1 held.2 rfl
      exact .left _ _ (by simp only [behind, Option.elim, List.length_append, List.length_cons]; omega)
  · rename_i whole
    cases star with
    | none => exact .left _ _ (by simp [whole])
    | some held => exact .right _ (.right _ (by simp))
  · obtain ⟨u, q, rfl, -, -⟩ := anchored t r rfl
    exact .right _ (.left _ _ (by simp))

/-- `LikeMatch` comes to an end on every string and pattern, and accepts the strings the pattern denotes. -/
theorem likeMatch_iff_likes (s p : List UInt8) :
    ∃ bound, ∀ fuel ≥ bound, ∃ answer, likeMatch fuel s p = some answer ∧ (answer = true ↔ Likes p s) := by
  obtain ⟨bound, settled⟩ := likeLoop_settles s p none (fun _ _ none => by cases none)
  refine ⟨bound, fun fuel enough => ?_⟩
  obtain ⟨answer, returned, correct⟩ := settled fuel enough
  exact ⟨answer, returned, correct.trans (by simp [Open])⟩

end BumbleBee.Expression
