import Mathlib

namespace Paging

/-! The pages of a list, counted from its end. -/

section Pages

variable {α β : Type} {l : List α} {skip limit : Nat}

def page (l : List α) (skip limit : Nat) : List α := (l.rdrop skip).rtake limit

/-- The pages of n entries: each skips the pages before it, and something is left for it. -/
abbrev PageOf (n limit : Nat) := { k : Nat // k * limit < n }

/-- The pages cut the list, which R orders, into pieces of the same length from its end; the last
piece may be shorter. -/
structure Partition (R : α → α → Prop) (l : List α) (limit : Nat)
    (pages : PageOf l.length limit → List α) : Prop where
  full : ∀ k, (k.1 + 1) * limit ≤ l.length → (pages k).length = limit
  rest : ∀ k, l.length < (k.1 + 1) * limit → (pages k).length = l.length - k.1 * limit
  covers : ∀ a, a ∈ l ↔ ∃ k, a ∈ pages k
  once : ∀ k, (pages k).Nodup
  disjoint : ∀ j k, j ≠ k → (pages j).Disjoint (pages k)
  ascending : ∀ k, (pages k).Pairwise R
  after : ∀ j k, j < k → ∀ a ∈ pages k, ∀ b ∈ pages j, R a b

theorem page_eq : page l skip limit =
    (l.take (l.length - skip)).drop (l.length - skip - limit) := by
  have length : (l.rdrop skip).length = l.length - skip := by
    simp [List.rdrop]
  rw [page, List.rtake, length, List.rdrop]

theorem length_page : (page l skip limit).length = min limit (l.length - skip) := by
  rw [page_eq, List.length_drop, List.length_take]
  omega

theorem page_map (f : α → β) (l : List α) (skip limit : Nat) :
    page (l.map f) skip limit = (page l skip limit).map f := by
  simp [page_eq, List.map_take, List.map_drop]

theorem page_sublist (l : List α) (skip limit : Nat) : (page l skip limit).Sublist l :=
  ((l.rdrop skip).drop_sublist _).trans (l.take_sublist _)

/-- A later page lies in what an earlier one has left before it. -/
theorem page_append_sublist {later : Nat} (h : skip + limit ≤ later) :
    (page l later limit ++ page l skip limit).Sublist l := by
  have cut : l.rdrop skip = (l.rdrop skip).rdrop limit ++ page l skip limit :=
    (List.take_append_drop _ _).symm
  have left : (l.rdrop skip).rdrop limit = l.rdrop (skip + limit) := by
    simp only [List.rdrop, List.length_take, List.take_take]
    congr 1
    omega
  have before : (page l later limit).Sublist (l.rdrop (skip + limit)) := by
    have shorter : (l.rdrop later).Sublist (l.rdrop (skip + limit)) :=
      List.take_sublist_take_left (by omega)
    exact ((l.rdrop later).drop_sublist _).trans shorter
  have within : (l.rdrop skip).Sublist l := l.take_sublist _
  rw [left] at cut
  rw [cut] at within
  exact (before.append_right _).trans within

theorem getElem_mem_page {i : Nat} (hi : i < l.length) (from_start : l.length - skip - limit ≤ i)
    (to_end : i < l.length - skip) : l[i] ∈ page l skip limit := by
  have index : l.length - skip - limit + (i - (l.length - skip - limit)) = i := by omega
  rw [page_eq, List.mem_drop_iff_getElem]
  refine ⟨i - (l.length - skip - limit), by rw [List.length_take]; omega, ?_⟩
  simp [index]

/-- An entry with r entries after it is on page r / limit. -/
theorem mem_iff_page (hl : 0 < limit) {a : α} :
    a ∈ l ↔ ∃ k : PageOf l.length limit, a ∈ page l (k.1 * limit) limit := by
  constructor
  · intro ha
    obtain ⟨i, hi, rfl⟩ := List.getElem_of_mem ha
    have whole := Nat.div_add_mod' (l.length - 1 - i) limit
    have within := Nat.mod_lt (l.length - 1 - i) hl
    refine ⟨⟨(l.length - 1 - i) / limit, by omega⟩, ?_⟩
    exact getElem_mem_page hi (by dsimp only; omega) (by dsimp only; omega)
  · intro h
    obtain ⟨k, hk⟩ := h
    exact (page_sublist _ _ _).mem hk

theorem partition_pages {R : α → α → Prop} (hl : 0 < limit) (nodup : l.Nodup)
    (ordered : l.Pairwise R) : Partition R l limit (fun k => page l (k.1 * limit) limit) := by
  have apart {j k : PageOf l.length limit} (h : j < k) :
      (page l (k.1 * limit) limit ++ page l (j.1 * limit) limit).Sublist l := by
    have step : (j.1 + 1) * limit ≤ k.1 * limit := Nat.mul_le_mul_right _ h
    rw [Nat.add_mul, Nat.one_mul] at step
    exact page_append_sublist step
  constructor
  · intro k hk
    rw [Nat.add_mul, Nat.one_mul] at hk
    rw [length_page]
    omega
  · intro k hk
    rw [Nat.add_mul, Nat.one_mul] at hk
    rw [length_page]
    omega
  · intro a
    exact mem_iff_page hl
  · intro k
    exact nodup.sublist (page_sublist _ _ _)
  · intro j k hne
    rcases lt_or_gt_of_ne hne with h | h
    · exact (List.disjoint_of_nodup_append (nodup.sublist (apart h))).symm
    · exact List.disjoint_of_nodup_append (nodup.sublist (apart h))
  · intro k
    exact ordered.sublist (page_sublist _ _ _)
  · intro j k h
    exact (List.pairwise_append.mp (ordered.sublist (apart h))).2.2

end Pages

/-! A list is read page by page from its end, and what a page shows is deleted before the next
page is read. -/

variable {P : Nat}

/-- How much is deleted of n entries when the last m of them are kept. Each page skips as many
entries of what is left as have been read so far. -/
def sweep (P m : Nat) : Nat → Nat → Nat → Nat
  | 0, _, _ => 0
  | fuel + 1, n, skip =>
    let d := min n (skip + P) - max skip m
    d + if skip + P < n then sweep P m fuel (n - d) (skip + P) else 0

/-- Every other page of n entries. -/
def alternate (P n : Nat) : Nat := P * (n / (2 * P)) + min P (n % (2 * P))

/-- The end of the page in which the entries that are kept end. -/
def pageEnd (P m : Nat) : Nat := P * (m / P + 1)

def deletable (P n m : Nat) : Nat :=
  min n (pageEnd P m) - m + alternate P (n + m - 2 * pageEnd P m)

@[simp] theorem alternate_zero : alternate P 0 = 0 := by
  simp [alternate]

theorem alternate_step (hP : 0 < P) (n : Nat) :
    alternate P n = min n P + alternate P (n - 2 * P) := by
  have two : 0 < 2 * P := by omega
  by_cases hn : n < 2 * P
  · have past : n - 2 * P = 0 := by omega
    rw [past, alternate_zero, alternate, Nat.div_eq_of_lt hn, Nat.mod_eq_of_lt hn]
    omega
  · have quotient : n / (2 * P) = (n - 2 * P) / (2 * P) + 1 := by
      rw [← Nat.add_div_right _ two]
      congr 1
      omega
    have remainder : n % (2 * P) = (n - 2 * P) % (2 * P) := by
      rw [← Nat.add_mod_right (n - 2 * P)]
      congr 1
      omega
    rw [alternate, alternate, quotient, remainder, Nat.mul_add]
    omega

theorem alternate_le (hP : 0 < P) (n : Nat) : alternate P n ≤ n := by
  have whole := Nat.div_add_mod n (2 * P)
  have half : P * (n / (2 * P)) ≤ 2 * P * (n / (2 * P)) :=
    Nat.mul_le_mul_right _ (by omega)
  unfold alternate
  omega

theorem lt_pageEnd (hP : 0 < P) (m : Nat) : m < pageEnd P m := Nat.lt_mul_div_succ m hP

/-- Behind the entries that are kept, the sweep skips as much as it deletes. -/
theorem sweep_past (hP : 0 < P) {m fuel n skip : Nat} (hm : m ≤ skip)
    (enough : n ≤ skip + P * fuel) : sweep P m fuel n skip = alternate P (n - skip) := by
  induction fuel generalizing n skip with
  | zero =>
    have none_left : n - skip = 0 := by omega
    rw [none_left, alternate_zero]
    rfl
  | succ fuel ih =>
    rw [Nat.mul_add] at enough
    rw [sweep, max_eq_left hm, alternate_step hP]
    by_cases more : skip + P < n
    · have full : min n (skip + P) - skip = P := by omega
      have left : n - P - (skip + P) = n - skip - 2 * P := by omega
      simp only [if_pos more, full]
      rw [ih (by omega) (by omega), left]
      omega
    · have last : n - skip - 2 * P = 0 := by omega
      simp only [if_neg more]
      rw [last, alternate_zero]
      omega

theorem sweep_eq (hP : 0 < P) {m fuel n skip : Nat} (hm : skip ≤ m) (hskip : P ∣ skip)
    (enough : n ≤ skip + P * fuel) : sweep P m fuel n skip = deletable P n m := by
  have after := lt_pageEnd hP m
  induction fuel generalizing skip with
  | zero =>
    have kept : n + m - 2 * pageEnd P m = 0 := by omega
    rw [deletable, kept, alternate_zero, sweep]
    omega
  | succ fuel ih =>
    rw [Nat.mul_add] at enough
    rw [sweep, max_eq_right hm]
    by_cases next : skip + P ≤ m
    · have nothing : min n (skip + P) - m = 0 := by omega
      simp only [nothing, Nat.sub_zero, Nat.zero_add]
      split_ifs with more
      · exact ih next (Dvd.dvd.add hskip dvd_rfl) (by omega)
      · have kept : n + m - 2 * pageEnd P m = 0 := by omega
        rw [deletable, kept, alternate_zero]
        omega
    · -- the page in which the entries that are kept end
      have page : pageEnd P m = skip + P := by
        obtain ⟨j, rfl⟩ := hskip
        have quotient : m / P = j := by
          apply Nat.div_eq_of_lt_le
          · rwa [Nat.mul_comm]
          · rw [Nat.add_mul, Nat.one_mul, Nat.mul_comm j]
            omega
        rw [pageEnd, quotient, Nat.mul_add, Nat.mul_one]
      rw [deletable, page]
      by_cases more : skip + P < n
      · have left : n - (min n (skip + P) - m) - (skip + P) = n + m - 2 * (skip + P) := by omega
        simp only [if_pos more]
        rw [sweep_past hP (by omega) (by omega), left]
      · have kept : n + m - 2 * (skip + P) = 0 := by omega
        simp only [if_neg more]
        rw [kept, alternate_zero]

/-- Everything that is not kept is deleted exactly when it ends on that page. -/
theorem deletable_eq_iff (hP : 0 < P) {n m : Nat} (hm : m ≤ n) :
    deletable P n m = n - m ↔ n ≤ pageEnd P m := by
  have after := lt_pageEnd hP m
  have less := alternate_le hP (n + m - 2 * pageEnd P m)
  unfold deletable
  constructor
  · intro h
    omega
  · intro h
    have kept : n + m - 2 * pageEnd P m = 0 := by omega
    rw [kept, alternate_zero]
    omega

/-! What a page shows. -/

variable {α : Type}

/-- Where what is kept comes last, the list falls into two parts. -/
theorem filter_append_filter {keep : α → Bool} {l : List α}
    (h : l.Pairwise (fun a b => keep a = true → keep b = true)) :
    l.filter (fun a => !keep a) ++ l.filter keep = l := by
  induction l with
  | nil => rfl
  | cons a l ih =>
    obtain ⟨ha, hl⟩ := List.pairwise_cons.mp h
    cases hk : keep a with
    | false => simp [hk, ih hl]
    | true =>
      have all : l.filter keep = l := List.filter_eq_self.mpr (fun b hb => ha b hb hk)
      have none_left : l.filter (fun b => !keep b) = [] := by
        rw [List.filter_eq_nil_iff]
        intro b hb
        simp [ha b hb hk]
      simp [hk, all, none_left]

theorem countP_take {keep : α → Bool} {l : List α}
    (h : l.Pairwise (fun a b => keep a = true → keep b = true)) (i : Nat) :
    (l.take i).countP (fun a => !keep a) = min i (l.length - l.countP keep) := by
  have parts := filter_append_filter h
  have first : ((l.filter (fun a => !keep a)).take i).countP (fun a => !keep a) =
      min i (l.filter (fun a => !keep a)).length := by
    rw [List.countP_eq_length.mpr, List.length_take]
    intro a ha
    exact (List.mem_filter.mp (List.mem_of_mem_take ha)).2
  have last (j : Nat) : ((l.filter keep).take j).countP (fun a => !keep a) = 0 := by
    rw [List.countP_eq_zero]
    intro a ha
    simp [(List.mem_filter.mp (List.mem_of_mem_take ha)).2]
  have length : (l.filter (fun a => !keep a)).length + l.countP keep = l.length := by
    rw [List.countP_eq_length_filter, ← List.length_append, parts]
  have split : l.take i = (l.filter (fun a => !keep a)).take i ++
      (l.filter keep).take (i - (l.filter (fun a => !keep a)).length) := by
    rw [← List.take_append, parts]
  rw [split, List.countP_append, first, last]
  omega

theorem countP_page {keep : α → Bool} {l : List α}
    (h : l.Pairwise (fun a b => keep a = true → keep b = true)) (skip : Nat) :
    (page l skip P).countP (fun a => !keep a) =
      min l.length (skip + P) - max skip (l.countP keep) := by
  have kept : l.countP keep ≤ l.length := List.countP_le_length
  have whole := countP_take h (l.length - skip)
  have before := countP_take h (min (l.length - skip - P) (l.length - skip))
  rw [← List.take_append_drop (l.length - skip - P) (l.take (l.length - skip)),
    List.countP_append, List.take_take] at whole
  rw [page_eq]
  omega

end Paging
