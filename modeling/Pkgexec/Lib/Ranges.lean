/-
# Sorted ranges over a linear order

The `<algorithm>` functions that assume a sorted range -- `std::unique`, `std::includes`,
`std::binary_search`, `std::lower_bound`, `std::adjacent_find` -- as functions on lists,
each with its documented behaviour, and the one fact each of them is used for: on a range
sorted by a linear order they decide set membership and set inclusion.

`normalize`, sorting followed by `unique`, is the canonical form of a finite set: two lists
have the same normal form exactly when they have the same members (`normalize_eq_iff`).
-/
import Mathlib

namespace Ranges

variable {α β : Type}

/-! ## 1. Machine words are linearly ordered

By their values, so that what follows applies to bytes and to 64-bit words. -/

instance linearOrderUInt8 : LinearOrder UInt8 where
  le_refl := UInt8.le_refl
  le_trans _ _ _ := UInt8.le_trans
  le_antisymm _ _ := UInt8.le_antisymm
  le_total := UInt8.le_total
  lt_iff_le_not_ge a b := by
    simp only [UInt8.lt_iff_toNat_lt, UInt8.le_iff_toNat_le]
    omega
  toDecidableLE := inferInstance
  toDecidableEq := inferInstance
  toDecidableLT := inferInstance

instance linearOrderUInt64 : LinearOrder UInt64 where
  le_refl := UInt64.le_refl
  le_trans _ _ _ := UInt64.le_trans
  le_antisymm _ _ := UInt64.le_antisymm
  le_total := UInt64.le_total
  lt_iff_le_not_ge a b := by
    simp only [UInt64.lt_iff_toNat_lt, UInt64.le_iff_toNat_le]
    omega
  toDecidableLE := inferInstance
  toDecidableEq := inferInstance
  toDecidableLT := inferInstance

/-! ## 2. The algorithms

A range is the list of its elements and an iterator the list from there to the end.  What an
algorithm needs of its range is in the lemmas, not here: each function is defined on every list. -/

section Algorithms

variable [LinearOrder α]

/-- `std::sort`.  Over a linear order every sorting algorithm returns this list
(`Sorter.map_key_eq`, where the key is the element). -/
def sort (l : List α) : List α := l.insertionSort (· ≤ ·)

/-- `std::unique` with the erase that follows it: every run of equal neighbours keeps one. -/
def unique : List α → List α
  | [] => []
  | [a] => [a]
  | a :: b :: t => if a = b then unique (b :: t) else a :: unique (b :: t)

/-- Sort, then drop the repetitions. -/
def normalize (l : List α) : List α := unique (sort l)

/-- `std::includes`: one walk over both ranges. -/
def includes : List α → List α → Bool
  | _, [] => true
  | [], _ :: _ => false
  | a :: s, b :: t => if b < a then false else if a < b then includes s (b :: t) else includes s t

/-- `std::lower_bound`: the range from the first element that is not below the key. -/
def lowerBound (key : β → α) (l : List β) (a : α) : List β := l.dropWhile (fun x => key x < a)

/-- `std::binary_search`. -/
def binarySearch (l : List α) (a : α) : Bool :=
  match lowerBound id l a with
  | [] => false
  | x :: _ => !decide (a < x)

end Algorithms

/-- `std::adjacent_find`, returning the second of the two neighbours it finds. -/
def adjacentFind (eq : α → α → Bool) : List α → Option α
  | a :: b :: t => if eq a b then some b else adjacentFind eq (b :: t)
  | _ => none

/-- `std::is_sorted`. -/
def isSorted [LinearOrder α] : List α → Bool
  | a :: b :: t => !decide (b < a) && isSorted (b :: t)
  | _ => true

/-- The first element whose key an earlier element has: the loop that inserts every key
into a `std::set` and stops at the first refusal. -/
def firstRepeated [DecidableEq β] (key : α → β) : List β → List α → Option α
  | _, [] => none
  | seen, a :: t => if key a ∈ seen then some a else firstRepeated key (key a :: seen) t

/-! ## 3. Sorting and removing repetitions

A strictly increasing list is the canonical form of a set, and all that is said below of `sort` and
`unique` goes into `normalize_eq_iff`. -/

section Normal

variable [LinearOrder α]

theorem sort_perm (l : List α) : (sort l).Perm l := List.perm_insertionSort _ l

@[simp] theorem mem_sort {a : α} {l : List α} : a ∈ sort l ↔ a ∈ l := (sort_perm l).mem_iff

theorem sort_sorted (l : List α) : (sort l).Pairwise (· ≤ ·) := List.pairwise_insertionSort _ l

@[simp] theorem mem_unique {a : α} {l : List α} : a ∈ unique l ↔ a ∈ l := by
  induction l using unique.induct with
  | case1 => exact Iff.rfl
  | case2 b => exact Iff.rfl
  | case3 b t ih =>
    rw [unique, if_pos rfl, ih]
    simp
  | case4 b c t hne ih =>
    rw [unique, if_neg hne, List.mem_cons, ih, ← List.mem_cons]

theorem unique_strict {l : List α} (h : l.Pairwise (· ≤ ·)) : (unique l).Pairwise (· < ·) := by
  induction l using unique.induct with
  | case1 => exact List.Pairwise.nil
  | case2 a => exact List.pairwise_singleton _ a
  | case3 a t ih =>
    rw [unique, if_pos rfl]
    exact ih (List.pairwise_cons.mp h).2
  | case4 a b t hne ih =>
    obtain ⟨ha, ht⟩ := List.pairwise_cons.mp h
    have hab : a < b := lt_of_le_of_ne (ha b List.mem_cons_self) hne
    rw [unique, if_neg hne]
    refine List.pairwise_cons.mpr ⟨fun x hx => ?_, ih ht⟩
    rcases List.mem_cons.mp (mem_unique.mp hx) with rfl | hx
    · exact hab
    · exact lt_of_lt_of_le hab ((List.pairwise_cons.mp ht).1 x hx)

@[simp] theorem mem_normalize {a : α} {l : List α} : a ∈ normalize l ↔ a ∈ l := by
  simp [normalize]

theorem normalize_strict (l : List α) : (normalize l).Pairwise (· < ·) :=
  unique_strict (sort_sorted l)

/-- A strictly increasing list is determined by its members. -/
theorem eq_of_mem_iff {l m : List α} (hl : l.Pairwise (· < ·)) (hm : m.Pairwise (· < ·))
    (h : ∀ a, a ∈ l ↔ a ∈ m) : l = m :=
  List.Pairwise.eq_of_mem_iff hl hm h

theorem normalize_eq_of_strict {l m : List α} (hm : m.Pairwise (· < ·))
    (h : ∀ a, a ∈ l ↔ a ∈ m) : normalize l = m :=
  eq_of_mem_iff (normalize_strict l) hm (fun a => mem_normalize.trans (h a))

/-- **Normal forms are sets**: order and repetition are all that `normalize` forgets. -/
theorem normalize_eq_iff {l m : List α} : normalize l = normalize m ↔ ∀ a, a ∈ l ↔ a ∈ m := by
  constructor
  · intro h a
    rw [← mem_normalize, h, mem_normalize]
  · intro h
    exact normalize_eq_of_strict (normalize_strict m) (fun a => (h a).trans mem_normalize.symm)

/-! ## 4. Searching a sorted range

The walk and the bisection, with what they decide on a range that is in order. -/

/-- On strictly increasing ranges `std::includes` is set inclusion. -/
theorem includes_iff : ∀ {s t : List α}, s.Pairwise (· < ·) → t.Pairwise (· < ·) →
    (includes s t = true ↔ ∀ a ∈ t, a ∈ s)
  | s, [], _, _ => by cases s <;> simp [includes]
  | [], b :: t, _, _ =>
    iff_of_false (by simp [includes]) (fun h => absurd (h b List.mem_cons_self) List.not_mem_nil)
  | a :: s, b :: t, hs, ht => by
    obtain ⟨has, hs'⟩ := List.pairwise_cons.mp hs
    obtain ⟨hbt, ht'⟩ := List.pairwise_cons.mp ht
    simp only [includes]
    rcases lt_trichotomy b a with hba | rfl | hab
    · -- everything in `a :: s` is above `b`
      rw [if_pos hba]
      refine iff_of_false (by simp) (fun h => ?_)
      rcases List.mem_cons.mp (h b List.mem_cons_self) with e | hb
      · exact absurd hba (e ▸ lt_irrefl b)
      · exact absurd (has b hb) (not_lt_of_gt hba)
    · rw [if_neg (lt_irrefl b), if_neg (lt_irrefl b), includes_iff hs' ht']
      constructor
      · rintro h x hx
        rcases List.mem_cons.mp hx with rfl | hx
        · exact List.mem_cons_self
        · exact List.mem_cons_of_mem _ (h x hx)
      · rintro h x hx
        rcases List.mem_cons.mp (h x (List.mem_cons_of_mem _ hx)) with rfl | hx'
        · exact absurd (hbt x hx) (lt_irrefl x)
        · exact hx'
    · -- `a` is below every element of `b :: t`, so it can be skipped
      rw [if_neg (not_lt_of_gt hab), if_pos hab, includes_iff hs' ht]
      constructor
      · exact fun h x hx => List.mem_cons_of_mem _ (h x hx)
      · rintro h x hx
        rcases List.mem_cons.mp (h x hx) with rfl | hx'
        · rcases List.mem_cons.mp hx with e | hxt
          · exact absurd hab (e ▸ lt_irrefl x)
          · exact absurd (hbt x hxt) (not_lt_of_gt hab)
        · exact hx'

/-- On a sorted range `std::binary_search` is membership. -/
theorem binarySearch_iff {l : List α} {a : α} (h : l.Pairwise (· ≤ ·)) :
    binarySearch l a = true ↔ a ∈ l := by
  induction l with
  | nil => simp [binarySearch, lowerBound]
  | cons x t ih =>
    obtain ⟨hx, ht⟩ := List.pairwise_cons.mp h
    by_cases hxa : x < a
    · have hskip : binarySearch (x :: t) a = binarySearch t a := by
        simp [binarySearch, lowerBound, hxa]
      rw [hskip, ih ht, List.mem_cons]
      exact ⟨Or.inr, fun ha => ha.resolve_left (fun e => absurd hxa (e ▸ lt_irrefl a))⟩
    · have hstop : binarySearch (x :: t) a = !decide (a < x) := by
        simp [binarySearch, lowerBound, hxa]
      rw [hstop, Bool.not_eq_true', decide_eq_false_iff_not]
      constructor
      · intro hax
        exact List.mem_cons.mpr (Or.inl (le_antisymm (not_lt.mp hxa) (not_lt.mp hax)))
      · intro ha hax
        rcases List.mem_cons.mp ha with rfl | ha
        · exact lt_irrefl a hax
        · exact absurd (hx a ha) (not_le_of_gt hax)

theorem strict_sorted {l : List α} (h : l.Pairwise (· < ·)) : l.Pairwise (· ≤ ·) :=
  h.imp le_of_lt

end Normal

/-! ## 5. Repetition

Two ways to find a repetition: by looking at neighbours in a sorted range, and by a set of the keys
met so far.  The first finds the least repeated key, the second the first one in the order given. -/

/-- A strictly increasing range passes both tests for one. -/
theorem canonical_of_strict [LinearOrder α] {r : α → α → Bool}
    (heq : ∀ a b, r a b = true ↔ a = b) {l : List α} (h : l.Pairwise (· < ·)) :
    isSorted l = true ∧ adjacentFind r l = none := by
  induction l with
  | nil => exact ⟨rfl, rfl⟩
  | cons a t ih =>
    obtain ⟨ha, ht⟩ := List.pairwise_cons.mp h
    obtain ⟨hsorted, hfind⟩ := ih ht
    cases t with
    | nil => exact ⟨rfl, rfl⟩
    | cons b t =>
      have hab : a < b := ha b List.mem_cons_self
      constructor
      · simp [isSorted, hsorted, hab.le]
      · rw [adjacentFind, if_neg (fun h => hab.ne ((heq a b).mp h)), hfind]

/-- Sorted by a key and free of neighbours with one key is strictly increasing in that key. -/
theorem strict_of_adjacentFind [LinearOrder β] {k : α → β} {r : α → α → Bool}
    (heq : ∀ a b, r a b = true ↔ k a = k b) {l : List α}
    (h : l.Pairwise (fun a b => k a ≤ k b)) (hnone : adjacentFind r l = none) :
    l.Pairwise (fun a b => k a < k b) := by
  induction l with
  | nil => exact List.Pairwise.nil
  | cons a t ih =>
    obtain ⟨ha, ht⟩ := List.pairwise_cons.mp h
    cases t with
    | nil => exact List.pairwise_singleton _ a
    | cons b t =>
      simp only [adjacentFind] at hnone
      split at hnone
      · exact absurd hnone (by simp)
      · rename_i hne
        have hrest := ih ht hnone
        have hab : k a < k b :=
          lt_of_le_of_ne (ha b List.mem_cons_self) (fun e => hne ((heq a b).mpr e))
        refine List.pairwise_cons.mpr ⟨fun x hx => ?_, hrest⟩
        rcases List.mem_cons.mp hx with rfl | hx
        · exact hab
        · exact hab.trans ((List.pairwise_cons.mp hrest).1 x hx)

theorem nodup_of_firstRepeated [DecidableEq β] {key : α → β} {seen : List β} {l : List α}
    (h : firstRepeated key seen l = none) : (l.map key).Nodup ∧ ∀ a ∈ l, key a ∉ seen := by
  induction l generalizing seen with
  | nil => simp
  | cons a t ih =>
    simp only [firstRepeated] at h
    split at h
    · exact absurd h (by simp)
    · rename_i ha
      obtain ⟨hnd, hseen⟩ := ih h
      constructor
      · refine List.nodup_cons.mpr ⟨fun hmem => ?_, hnd⟩
        obtain ⟨b, hb, hkey⟩ := List.mem_map.mp hmem
        exact hseen b hb (hkey ▸ List.mem_cons_self)
      · intro b hb
        rcases List.mem_cons.mp hb with rfl | hb
        · exact ha
        · intro hin
          exact hseen b hb (List.mem_cons_of_mem _ hin)

/-- Conversely neither test finds anything where there is no repetition. -/
theorem adjacentFind_of_strict [LinearOrder β] {k : α → β} {r : α → α → Bool}
    (heq : ∀ a b, r a b = true ↔ k a = k b) {l : List α}
    (h : l.Pairwise (fun a b => k a < k b)) : adjacentFind r l = none := by
  induction l with
  | nil => rfl
  | cons a t ih =>
    obtain ⟨ha, ht⟩ := List.pairwise_cons.mp h
    cases t with
    | nil => rfl
    | cons b t =>
      have hab : k a < k b := ha b List.mem_cons_self
      rw [adjacentFind, if_neg (fun hr => hab.ne ((heq a b).mp hr))]
      exact ih ht

theorem firstRepeated_eq_none [DecidableEq β] {key : α → β} {seen : List β} {l : List α}
    (hnd : (l.map key).Nodup) (hseen : ∀ a ∈ l, key a ∉ seen) :
    firstRepeated key seen l = none := by
  induction l generalizing seen with
  | nil => rfl
  | cons a t ih =>
    rw [List.map_cons] at hnd
    obtain ⟨ha, ht⟩ := List.nodup_cons.mp hnd
    rw [firstRepeated, if_neg (hseen a List.mem_cons_self)]
    refine ih ht (fun b hb hin => ?_)
    rcases List.mem_cons.mp hin with hkey | hin
    · exact ha (hkey ▸ List.mem_map_of_mem hb)
    · exact hseen b (List.mem_cons_of_mem a hb) hin

/-- What the loop stops at: the keys before it are different, and its own is among them. -/
theorem firstRepeated_eq_some [DecidableEq β] {key : α → β} {seen : List β} {l : List α} {x : α}
    (h : firstRepeated key seen l = some x) : ∃ pre post, l = pre ++ x :: post ∧
      (key x ∈ seen ∨ key x ∈ pre.map key) ∧ (pre.map key).Nodup ∧ ∀ a ∈ pre, key a ∉ seen := by
  induction l generalizing seen with
  | nil => exact absurd h (by simp [firstRepeated])
  | cons a t ih =>
    rw [firstRepeated] at h
    split at h
    · rename_i ha
      obtain rfl := Option.some.inj h
      exact ⟨[], t, rfl, .inl ha, List.nodup_nil, by simp⟩
    · rename_i ha
      obtain ⟨pre, post, rfl, hkey, hnodup, hseen⟩ := ih h
      refine ⟨a :: pre, post, rfl, ?_, ?_, ?_⟩
      · rcases hkey with hkey | hkey
        · rcases List.mem_cons.mp hkey with hkey | hkey
          · exact .inr (by simp [hkey])
          · exact .inl hkey
        · exact .inr (List.mem_cons_of_mem _ hkey)
      · refine List.nodup_cons.mpr ⟨fun hmem => ?_, hnodup⟩
        obtain ⟨b, hb, hkeys⟩ := List.mem_map.mp hmem
        exact hseen b hb (hkeys ▸ List.mem_cons_self)
      · intro b hb
        rcases List.mem_cons.mp hb with rfl | hb
        · exact ha
        · exact fun hin => hseen b hb (List.mem_cons_of_mem _ hin)

/-! ## 6. Keys

Ranges of records that are sorted by a key.  The order among records of one key is up to the
algorithm, so whatever is said of a sorted range is said for every `Sorter`. -/

section Keys

variable [LinearOrder β] {key : α → β}

/-- Where the keys are all different, sorted by the key is strictly increasing in it. -/
theorem strict_iff_nodup {l : List α} (h : l.Pairwise (fun a b => key a ≤ key b)) :
    l.Pairwise (fun a b => key a < key b) ↔ (l.map key).Nodup := by
  rw [List.Nodup, List.pairwise_map]
  constructor
  · intro hlt
    exact hlt.imp ne_of_lt
  · intro hne
    exact (h.and hne).imp (fun hab => lt_of_le_of_ne hab.1 hab.2)

/-- The test for neighbours with one key finds a repetition wherever there is one. -/
theorem adjacentFind_eq_none_iff {r : α → α → Bool} (heq : ∀ a b, r a b = true ↔ key a = key b)
    {l : List α} (h : l.Pairwise (fun a b => key a ≤ key b)) :
    adjacentFind r l = none ↔ (l.map key).Nodup := by
  rw [← strict_iff_nodup h]
  exact ⟨strict_of_adjacentFind heq h, adjacentFind_of_strict heq⟩

/-- The least of the elements that are repeated. -/
def LeastRepeated (l : List β) (b : β) : Prop :=
  List.Duplicate b l ∧ ∀ c, List.Duplicate c l → b ≤ c

theorem LeastRepeated.unique {l : List β} {b c : β} (hb : LeastRepeated l b)
    (hc : LeastRepeated l c) : b = c :=
  le_antisymm (hb.2 c hc.1) (hc.2 b hb.1)

theorem leastRepeated_congr {l l' : List β} (h : l.Perm l') {b : β} :
    LeastRepeated l b ↔ LeastRepeated l' b := by
  have hduplicate : ∀ c, List.Duplicate c l ↔ List.Duplicate c l' := by
    intro c
    rw [List.duplicate_iff_two_le_count, List.duplicate_iff_two_le_count, h.count_eq]
  simp only [LeastRepeated, hduplicate]

theorem not_leastRepeated {l : List β} (h : l.Nodup) (b : β) : ¬ LeastRepeated l b :=
  fun hb => hb.1.not_nodup h

/-- In a sorted range the first neighbours with one key have the least repeated key. -/
theorem leastRepeated_of_adjacentFind {r : α → α → Bool}
    (heq : ∀ a b, r a b = true ↔ key a = key b) {l : List α} {x : α}
    (h : l.Pairwise (fun a b => key a ≤ key b)) (hfind : adjacentFind r l = some x) :
    LeastRepeated (l.map key) (key x) := by
  induction l with
  | nil => exact absurd hfind (by simp [adjacentFind])
  | cons a t ih =>
    obtain ⟨ha, ht⟩ := List.pairwise_cons.mp h
    cases t with
    | nil => exact absurd hfind (by simp [adjacentFind])
    | cons b t =>
      rw [adjacentFind] at hfind
      split at hfind
      · rename_i hr
        obtain rfl := Option.some.inj hfind
        have hkey : key a = key b := (heq a b).mp hr
        refine ⟨?_, ?_⟩
        · rw [List.map_cons, List.map_cons, hkey]
          exact List.Mem.duplicate_cons_self List.mem_cons_self
        · intro c hc
          have hmem : c ∈ (a :: b :: t).map key := hc.mem
          obtain ⟨y, hy, rfl⟩ := List.mem_map.mp hmem
          rcases List.mem_cons.mp hy with rfl | hy
          · exact hkey.ge
          · exact hkey ▸ ha y hy
      · rename_i hr
        obtain ⟨hduplicate, hleast⟩ := ih ht hfind
        refine ⟨hduplicate.duplicate_cons _, ?_⟩
        intro c hc
        rw [List.map_cons] at hc
        rcases List.duplicate_cons_iff.mp hc with ⟨rfl, hmem⟩ | hc
        · -- the head is below its neighbour, so its key does not come again
          obtain ⟨y, hy, hkey⟩ := List.mem_map.mp hmem
          have hab : key a < key b :=
            lt_of_le_of_ne (ha b List.mem_cons_self) (fun heq' => hr ((heq a b).mpr heq'))
          have hby : key b ≤ key y := by
            rcases List.mem_cons.mp hy with rfl | hy
            · exact le_rfl
            · exact (List.pairwise_cons.mp ht).1 y hy
          exact absurd (hkey ▸ hby) (not_le_of_gt hab)
        · exact hleast c hc

/-- `std::lower_bound` on a key, and the test that what it found has the key. -/
def lookup (key : α → β) (l : List α) (b : β) : Option α :=
  match lowerBound key l b with
  | [] => none
  | x :: _ => if key x ≠ b then none else some x

/-- **Looking a key up** in a range that is strictly increasing in it finds the element that
has it. -/
theorem lookup_eq_some {l : List α} (h : l.Pairwise (fun a b => key a < key b)) {b : β} {x : α} :
    lookup key l b = some x ↔ x ∈ l ∧ key x = b := by
  induction l with
  | nil => simp [lookup, lowerBound]
  | cons a t ih =>
    obtain ⟨ha, ht⟩ := List.pairwise_cons.mp h
    by_cases hab : key a < b
    · have hskip : lookup key (a :: t) b = lookup key t b := by
        simp [lookup, lowerBound, hab]
      rw [hskip, ih ht, List.mem_cons]
      constructor
      · rintro ⟨hx, hkey⟩
        exact ⟨Or.inr hx, hkey⟩
      · rintro ⟨rfl | hx, hkey⟩
        · exact absurd hab (hkey ▸ lt_irrefl _)
        · exact ⟨hx, hkey⟩
    · have hstop : lookup key (a :: t) b = if key a ≠ b then none else some a := by
        simp [lookup, lowerBound, hab]
      rw [hstop]
      by_cases hkey : key a = b
      · rw [if_neg (not_not.mpr hkey), Option.some.injEq]
        constructor
        · rintro rfl
          exact ⟨List.mem_cons_self, hkey⟩
        · rintro ⟨hx, hxb⟩
          rcases List.mem_cons.mp hx with rfl | hx
          · rfl
          · exact absurd (ha x hx) (by rw [hkey, hxb]; exact lt_irrefl b)
      · rw [if_pos hkey]
        refine iff_of_false (by simp) (fun hx => ?_)
        obtain ⟨hx, hxb⟩ := hx
        -- everything from here on is above the key
        rcases List.mem_cons.mp hx with rfl | hx
        · exact hkey hxb
        · exact hab (hxb ▸ ha x hx)

theorem lookup_eq_none {l : List α} (h : l.Pairwise (fun a b => key a < key b)) {b : β} :
    lookup key l b = none ↔ ∀ x ∈ l, key x ≠ b := by
  constructor
  · intro hnone x hx hkey
    have hsome := (lookup_eq_some h).mpr ⟨hx, hkey⟩
    rw [hnone] at hsome
    exact absurd hsome (by simp)
  · intro hno
    cases hfound : lookup key l b with
    | none => rfl
    | some x =>
      obtain ⟨hx, hkey⟩ := (lookup_eq_some h).mp hfound
      exact absurd hkey (hno x hx)

/-- A key leads to one element only. -/
theorem eq_of_key_eq {l : List α} (h : l.Pairwise (fun a b => key a < key b)) {x y : α}
    (hx : x ∈ l) (hy : y ∈ l) (hkey : key x = key y) : x = y := by
  have hlx : lookup key l (key y) = some x := (lookup_eq_some h).mpr ⟨hx, hkey⟩
  have hly : lookup key l (key y) = some y := (lookup_eq_some h).mpr ⟨hy, rfl⟩
  exact Option.some.inj (hlx.symm.trans hly)

/-- `std::sort` with the comparison of a key: elements with one key come in any order. -/
structure Sorter (key : α → β) where
  sort : List α → List α
  perm : ∀ l, (sort l).Perm l
  sorted : ∀ l, (sort l).Pairwise (fun a b => key a ≤ key b)

/-- The keys in the order they are sorted in do not depend on the elements' order. -/
theorem Sorter.map_key_eq (S T : Sorter key) {l m : List α} (h : l.Perm m) :
    (S.sort l).map key = (T.sort m).map key := by
  have hperm : ((S.sort l).map key).Perm ((T.sort m).map key) :=
    (((S.perm l).trans h).trans (T.perm m).symm).map key
  have hS : ((S.sort l).map key).Pairwise (· ≤ ·) := List.pairwise_map.mpr (S.sorted l)
  have hT : ((T.sort m).map key).Pairwise (· ≤ ·) := List.pairwise_map.mpr (T.sorted m)
  exact hperm.eq_of_pairwise' hS hT

/-- **Where no key repeats, sorting forgets the order.** -/
theorem Sorter.sort_eq (S T : Sorter key) {l m : List α} (h : l.Perm m)
    (hnd : (l.map key).Nodup) : S.sort l = T.sort m := by
  have hperm : (S.sort l).Perm (T.sort m) := ((S.perm l).trans h).trans (T.perm m).symm
  have hS : ((S.sort l).map key).Nodup := ((S.perm l).map key).nodup_iff.mpr hnd
  have hT : ((T.sort m).map key).Nodup := by
    rw [← S.map_key_eq T h]
    exact hS
  have hSlt := (strict_iff_nodup (S.sorted l)).mpr hS
  have hTlt := (strict_iff_nodup (T.sorted m)).mpr hT
  exact List.Perm.eq_of_pairwise (fun _ _ _ _ hab hba => absurd hba (not_lt_of_gt hab)) hSlt hTlt
    hperm

end Keys

/-- Two ranges of one size are compared position by position. -/
theorem zip_any_ne_eq_false [DecidableEq β] {f : α → β} {l : List β} {m : List α}
    (h : l.length = m.length) :
    (l.zip m).any (fun pair => pair.1 ≠ f pair.2) = false ↔ l = m.map f := by
  induction l generalizing m with
  | nil =>
    obtain rfl := List.length_eq_zero_iff.mp h.symm
    simp
  | cons b l ih =>
    cases m with
    | nil => exact absurd h (by simp)
    | cons a m =>
      have hrest := ih (Nat.succ.inj h)
      rw [List.zip_cons_cons, List.any_cons, Bool.or_eq_false_iff, hrest, List.map_cons]
      simp

section Sorting

variable [LinearOrder α]

/-- `sort` is one of the algorithms. -/
def Sorter.std : Sorter (id : α → α) where
  sort := Ranges.sort
  perm := sort_perm
  sorted := sort_sorted

/-- Over a linear order sorting forgets the order of a list. -/
theorem sort_eq_of_perm {l m : List α} (h : l.Perm m) : sort l = sort m := by
  have hkeys := Sorter.map_key_eq Sorter.std Sorter.std h
  rwa [List.map_id, List.map_id] at hkeys

end Sorting

end Ranges
