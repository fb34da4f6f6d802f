import BumbleBee.Types.Cast

/-!
Rows of a `PRLHashTable` and `RowOperations::Match`. The first `keyCount` columns of a
row are its key. Two values are compared with `==`, so a NaN differs from itself; two
NULLs are equal under `null_equal_keys` only. `Match` filters its candidates column by
column and appends the failures of each column to those of the columns before.
-/

namespace BumbleBee.HashTable
open BumbleBee.Types

abbrev Cell := Option Datum

abbrev Row := List Cell

/-- The operator `==` on `float` and `double`. -/
def numberEqual : Number → Number → Bool
  | .finite p, .finite q => p = q
  | .infinite s, .infinite t => s = t
  | _, _ => false

def valueEqual : Datum → Datum → Bool
  | .integral m, .integral n => m = n
  | .floating x, .floating y => numberEqual x y
  | .string s, .string t => s = t
  | _, _ => false

def cellEqual (nullEqual : Bool) : Cell → Cell → Bool
  | some v, some w => valueEqual v w
  | none, none => nullEqual
  | _, _ => false

def cellAt (row : Row) (column : Nat) : Cell := row.getD column none

/-- The columns a key has and the meaning of NULL in it. -/
structure KeyLayout where
  keyCount : Nat
  nullEqualKeys : Bool

def KeyLayout.columnEqual (layout : KeyLayout) (a b : Row) (column : Nat) : Bool :=
  cellEqual layout.nullEqualKeys (cellAt a column) (cellAt b column)

def KeyLayout.keyEqual (layout : KeyLayout) (a b : Row) : Bool :=
  (List.range layout.keyCount).all (layout.columnEqual a b)

section Equality

variable {layout : KeyLayout} {a b c : Row}

theorem numberEqual_symm {x y : Number} (equal : numberEqual x y) : numberEqual y x := by
  cases x <;> cases y <;> simp_all [numberEqual]

theorem numberEqual_trans {x y z : Number} (first : numberEqual x y) (second : numberEqual y z) :
    numberEqual x z := by
  cases x <;> cases y <;> cases z <;> simp_all [numberEqual]

theorem numberEqual_eq {x y : Number} (equal : numberEqual x y) : x = y := by
  cases x <;> cases y <;> simp_all [numberEqual]

theorem valueEqual_symm {v w : Datum} (equal : valueEqual v w) : valueEqual w v := by
  cases v <;> cases w <;> simp_all [valueEqual]
  exact numberEqual_symm equal

theorem valueEqual_trans {u v w : Datum} (first : valueEqual u v) (second : valueEqual v w) : valueEqual u w := by
  cases u <;> cases v <;> cases w <;> simp_all [valueEqual]
  exact numberEqual_trans first second

theorem valueEqual_eq {v w : Datum} (equal : valueEqual v w) : v = w := by
  cases v <;> cases w <;> simp_all [valueEqual]
  exact numberEqual_eq equal

theorem cellEqual_symm {nullEqual : Bool} {x y : Cell} (equal : cellEqual nullEqual x y) :
    cellEqual nullEqual y x := by
  cases x <;> cases y <;> simp_all [cellEqual]
  exact valueEqual_symm equal

theorem cellEqual_trans {nullEqual : Bool} {x y z : Cell} (first : cellEqual nullEqual x y)
    (second : cellEqual nullEqual y z) : cellEqual nullEqual x z := by
  cases x <;> cases y <;> cases z <;> simp_all [cellEqual]
  exact valueEqual_trans first second

theorem KeyLayout.keyEqual_iff :
    layout.keyEqual a b ↔ ∀ column < layout.keyCount, layout.columnEqual a b column := by
  rw [keyEqual, List.all_eq_true]
  exact forall_congr' fun column => by rw [List.mem_range]

theorem KeyLayout.keyEqual_symm (equal : layout.keyEqual a b) : layout.keyEqual b a :=
  keyEqual_iff.mpr fun column small => cellEqual_symm (keyEqual_iff.mp equal column small)

theorem KeyLayout.keyEqual_trans (first : layout.keyEqual a b) (second : layout.keyEqual b c) :
    layout.keyEqual a c :=
  keyEqual_iff.mpr fun column small =>
    cellEqual_trans (keyEqual_iff.mp first column small) (keyEqual_iff.mp second column small)

theorem KeyLayout.keyEqual_self_left (equal : layout.keyEqual a b) : layout.keyEqual a a :=
  keyEqual_trans equal (keyEqual_symm equal)

theorem KeyLayout.columnEqual_congr (equal : layout.keyEqual a b) (c : Row) {column : Nat}
    (small : column < layout.keyCount) : layout.columnEqual a c column = layout.columnEqual b c column := by
  have cells := keyEqual_iff.mp equal column small
  apply Bool.eq_iff_iff.mpr
  constructor
  · exact cellEqual_trans (cellEqual_symm cells)
  · exact cellEqual_trans cells

end Equality

section Match

variable {C : Type}

/-- One key column: the candidates still equal and the failures. -/
def matchColumn (equal : C → Nat → Bool) (column : Nat) (cur : List C) : List C × List C :=
  (cur.filter fun cand => equal cand column, cur.filter fun cand => !equal cand column)

def matchColumns (equal : C → Nat → Bool) : List Nat → List C → List C → List C × List C
  | [], cur, noMatch => (cur, noMatch)
  | column :: columns, cur, noMatch =>
    if cur.isEmpty then (cur, noMatch)
    else
      let (next, failures) := matchColumn equal column cur
      matchColumns equal columns next (noMatch ++ failures)

/-- `RowOperations::Match`: the matches and the failures. `columns` is the row of a candidate in the
chunk and `row` the stored one. -/
def matchRows (layout : KeyLayout) (columns row : C → Row) (candidates : List C) : List C × List C :=
  matchColumns (fun cand => layout.columnEqual (columns cand) (row cand)) (List.range layout.keyCount) candidates []

variable {equal : C → Nat → Bool} {columns : List Nat} {cur noMatch : List C}

theorem matchColumns_fst :
    (matchColumns equal columns cur noMatch).1 = cur.filter fun cand => columns.all (equal cand) := by
  induction columns generalizing cur noMatch with
  | nil => exact (List.filter_eq_self.mpr fun _ _ => rfl).symm
  | cons column columns ih =>
    cases cur with
    | nil => rfl
    | cons cand rest =>
      refine ih.trans ?_
      rw [List.filter_filter]
      apply List.filter_congr
      intro cand member
      rw [List.all_cons, Bool.and_comm]

theorem matchColumns_perm :
    ((matchColumns equal columns cur noMatch).2 ++ (matchColumns equal columns cur noMatch).1).Perm
      (noMatch ++ cur) := by
  induction columns generalizing cur noMatch with
  | nil => exact List.Perm.refl _
  | cons column columns ih =>
    cases cur with
    | nil => exact List.Perm.refl _
    | cons cand rest =>
      refine ih.trans ?_
      rw [List.append_assoc]
      apply List.Perm.append_left
      exact List.perm_append_comm.trans (List.filter_append_perm _ _)

theorem matchColumns_pairwise {R : C → C → Prop} (order : (noMatch ++ cur).Pairwise R)
    (alike : ∀ p ∈ cur, ∀ q ∈ cur, ¬ R p q → ∀ column ∈ columns, equal p column = equal q column) :
    ((matchColumns equal columns cur noMatch).2 ++ (matchColumns equal columns cur noMatch).1).Pairwise R := by
  induction columns generalizing cur noMatch with
  | nil => exact order
  | cons column columns ih =>
    rw [matchColumns]
    cases split : cur.isEmpty with
    | true => exact order
    | false =>
      apply ih
      · obtain ⟨before, inside, across⟩ := List.pairwise_append.mp order
        rw [List.append_assoc]
        refine List.pairwise_append.mpr ⟨before, ?_, ?_⟩
        · refine List.pairwise_append.mpr ⟨inside.filter _, inside.filter _, ?_⟩
          intro p failed q survived
          by_contra unrelated
          have same := alike p (List.mem_of_mem_filter failed) q (List.mem_of_mem_filter survived) unrelated
            column List.mem_cons_self
          have unequal := List.of_mem_filter failed
          rw [same, List.of_mem_filter survived] at unequal
          cases unequal
        · intro p member q later
          rcases List.mem_append.mp later with failed | survived
          · exact across p member q (List.mem_of_mem_filter failed)
          · exact across p member q (List.mem_of_mem_filter survived)
      · intro p first q second unrelated later member
        exact alike p (List.mem_of_mem_filter first) q (List.mem_of_mem_filter second) unrelated later
          (List.mem_cons_of_mem _ member)

variable {layout : KeyLayout} {chunk row : C → Row} {candidates : List C}

theorem matchRows_fst :
    (matchRows layout chunk row candidates).1 =
      candidates.filter fun cand => layout.keyEqual (chunk cand) (row cand) :=
  matchColumns_fst

theorem matchRows_perm :
    ((matchRows layout chunk row candidates).2 ++ (matchRows layout chunk row candidates).1).Perm candidates :=
  matchColumns_perm

theorem mem_failures {p : C} (failed : p ∈ (matchRows layout chunk row candidates).2) (distinct : candidates.Nodup) :
    p ∈ candidates ∧ ¬ layout.keyEqual (chunk p) (row p) := by
  have whole : ((matchRows layout chunk row candidates).2 ++ (matchRows layout chunk row candidates).1).Nodup :=
    matchRows_perm.nodup_iff.mpr distinct
  have member : p ∈ candidates := matchRows_perm.subset (List.mem_append_left _ failed)
  refine ⟨member, fun equal => ?_⟩
  have matched : p ∈ (matchRows layout chunk row candidates).1 := by
    rw [matchRows_fst]
    exact List.mem_filter.mpr ⟨member, equal⟩
  exact (List.nodup_append.mp whole).2.2 p failed p matched rfl

theorem failures_pairwise {R : C → C → Prop} (order : candidates.Pairwise R)
    (alike : ∀ p ∈ candidates, ∀ q ∈ candidates, ¬ R p q → layout.keyEqual (chunk p) (chunk q) ∧ row p = row q) :
    (matchRows layout chunk row candidates).2.Pairwise R := by
  have whole : ((matchRows layout chunk row candidates).2 ++ (matchRows layout chunk row candidates).1).Pairwise R := by
    apply matchColumns_pairwise order
    intro p first q second unrelated column member
    obtain ⟨equal, met⟩ := alike p first q second unrelated
    rw [met]
    exact KeyLayout.columnEqual_congr equal _ (List.mem_range.mp member)
  exact (List.pairwise_append.mp whole).1

end Match

end BumbleBee.HashTable
