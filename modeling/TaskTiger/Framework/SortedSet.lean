import Mathlib

namespace Redis

variable {σ α : Type} [LinearOrder σ] [LinearOrder α]

/-- Rank order of a sorted set: ascending score, ties broken by the member. -/
def Before (a b : σ × α) : Prop := a.1 < b.1 ∨ a.1 = b.1 ∧ a.2 < b.2

instance (a b : σ × α) : Decidable (Before a b) :=
  inferInstanceAs (Decidable (a.1 < b.1 ∨ a.1 = b.1 ∧ a.2 < b.2))

theorem Before.trans {a b c : σ × α} (hab : Before a b) (hbc : Before b c) : Before a c := by
  rcases hab with h | ⟨he, h⟩ <;> rcases hbc with k | ⟨ke, k⟩
  · exact Or.inl (h.trans k)
  · exact Or.inl (ke ▸ h)
  · exact Or.inl (he ▸ k)
  · exact Or.inr ⟨he.trans ke, h.trans k⟩

theorem Before.score_le {a b : σ × α} (h : Before a b) : a.1 ≤ b.1 := by
  rcases h with h | ⟨he, _⟩
  · exact h.le
  · exact he.le

theorem before_or_before {a b : σ × α} (hne : a.2 ≠ b.2) : Before a b ∨ Before b a := by
  rcases lt_trichotomy a.1 b.1 with h | h | h
  · exact Or.inl (Or.inl h)
  · rcases lt_or_gt_of_ne hne with k | k
    · exact Or.inl (Or.inr ⟨h, k⟩)
    · exact Or.inr (Or.inr ⟨h.symm, k⟩)
  · exact Or.inr (Or.inl h)

/-- A ZSET: its entries in rank order, each member once. -/
@[ext] structure ZSet (σ α : Type) [LinearOrder σ] [LinearOrder α] where
  entries : List (σ × α)
  ranked : entries.Pairwise Before
  unique : (entries.map Prod.snd).Nodup

namespace ZSet

def empty : ZSet σ α := ⟨[], List.Pairwise.nil, List.nodup_nil⟩

instance : Inhabited (ZSet σ α) := ⟨empty⟩

/-- ZSCORE. -/
def score (z : ZSet σ α) (m : α) : Option σ :=
  (z.entries.find? (fun e => e.2 = m)).map Prod.fst

/-- ZCARD. -/
def card (z : ZSet σ α) : Nat := z.entries.length

/-- EXISTS: Redis deletes a sorted set with its last member. -/
def nonempty (z : ZSet σ α) : Bool := !z.entries.isEmpty

def insertRanked (e : σ × α) : List (σ × α) → List (σ × α)
  | [] => [e]
  | x :: xs => if Before e x then e :: x :: xs else x :: insertRanked e xs

theorem mem_insertRanked {e x : σ × α} {l : List (σ × α)} :
    x ∈ insertRanked e l ↔ x = e ∨ x ∈ l := by
  induction l with
  | nil => simp [insertRanked]
  | cons y ys ih =>
    rw [insertRanked]
    split_ifs
    · simp
    · simp only [List.mem_cons, ih]
      tauto

theorem insertRanked_ranked {e : σ × α} {l : List (σ × α)} (hl : l.Pairwise Before)
    (hne : ∀ x ∈ l, x.2 ≠ e.2) : (insertRanked e l).Pairwise Before := by
  induction l with
  | nil => simp [insertRanked]
  | cons y ys ih =>
    obtain ⟨hy, hys⟩ := List.pairwise_cons.mp hl
    rw [insertRanked]
    split_ifs with hb
    · refine List.pairwise_cons.mpr ⟨?_, hl⟩
      intro x hx
      rcases List.mem_cons.mp hx with rfl | hx
      · exact hb
      · exact hb.trans (hy x hx)
    · refine List.pairwise_cons.mpr ⟨?_, ih hys (fun x hx => hne x (by simp [hx]))⟩
      intro x hx
      rcases mem_insertRanked.mp hx with rfl | hx
      · exact (before_or_before (hne y (by simp))).resolve_right hb
      · exact hy x hx

theorem insertRanked_perm (e : σ × α) (l : List (σ × α)) :
    (insertRanked e l).Perm (e :: l) := by
  induction l with
  | nil => exact List.Perm.refl _
  | cons y ys ih =>
    rw [insertRanked]
    split_ifs
    · exact List.Perm.refl _
    · exact (ih.cons y).trans (List.Perm.swap e y ys)

/-- ZREM. -/
def rem (z : ZSet σ α) (m : α) : ZSet σ α where
  entries := z.entries.filter (fun e => e.2 ≠ m)
  ranked := z.ranked.filter _
  unique := z.unique.sublist (List.filter_sublist.map _)

/-- ZADD of one member: inserts it, or moves it to its new score. -/
def add (z : ZSet σ α) (s : σ) (m : α) : ZSet σ α where
  entries := insertRanked (s, m) (z.rem m).entries
  ranked := insertRanked_ranked (z.rem m).ranked (by simp [rem])
  unique := by
    refine ((insertRanked_perm _ _).map Prod.snd).nodup_iff.mpr ?_
    refine List.nodup_cons.mpr ⟨by simp [rem], (z.rem m).unique⟩

/-- ZREMRANGEBYRANK 0 (n-1): removes the first n entries. -/
def popFirst (z : ZSet σ α) (n : Nat) : ZSet σ α where
  entries := z.entries.drop n
  ranked := z.ranked.sublist (List.drop_sublist n _)
  unique := z.unique.sublist ((List.drop_sublist n _).map _)

/-- A LIMIT 0 count clause; a negative count means no limit. -/
def limit {β : Type} (count : Int) (l : List β) : List β :=
  if count < 0 then l else l.take count.toNat

/-- Whether a score lies between the bounds of a range query; `none` is an infinite bound. -/
def inRange (lo hi : Option σ) (s : σ) : Bool :=
  (match lo with | none => true | some a => decide (a ≤ s)) &&
    (match hi with | none => true | some b => decide (s ≤ b))

/-- ZREMRANGEBYSCORE lo hi. -/
def remRangeByScore (z : ZSet σ α) (lo hi : Option σ) : ZSet σ α where
  entries := z.entries.filter (fun e => !inRange lo hi e.1)
  ranked := z.ranked.filter _
  unique := z.unique.sublist (List.filter_sublist.map _)

/-- ZRANGEBYSCORE lo hi LIMIT 0 count, with the scores. -/
def rangeByScore (z : ZSet σ α) (lo hi : Option σ) (count : Int) : List (σ × α) :=
  limit count (z.entries.filter (fun e => inRange lo hi e.1))

/-! What each query says of the entries. -/

/-- ZRANGE start stop, with the scores: a negative index counts from the end. -/
def range (z : ZSet σ α) (start stop : Int) : List (σ × α) :=
  let first := if start < 0 then start + z.card else start
  let last := if stop < 0 then stop + z.card else stop
  (z.entries.take (last + 1).toNat).drop first.toNat

/-- A page of entries, counted from the last one. -/
def slice (z : ZSet σ α) (skip limit : Nat) : List (σ × α) := (z.entries.rdrop skip).rtake limit

theorem score_eq_some {z : ZSet σ α} {m : α} {s : σ} :
    z.score m = some s ↔ (s, m) ∈ z.entries := by
  constructor
  · intro h
    obtain ⟨e, he, rfl⟩ := Option.map_eq_some_iff.mp h
    have hm : e.2 = m := by simpa using List.find?_some he
    have hin := List.mem_of_find?_eq_some he
    rwa [← hm]
  · intro h
    cases hf : z.entries.find? (fun e => decide (e.2 = m)) with
    | none =>
      have hn := List.find?_eq_none.mp hf (s, m) h
      simp at hn
    | some e =>
      have hm : e.2 = m := by simpa using List.find?_some hf
      have hin := List.mem_of_find?_eq_some hf
      have heq : e = (s, m) := List.inj_on_of_nodup_map z.unique hin h hm
      simp [score, hf, heq]

theorem score_eq_none {z : ZSet σ α} {m : α} :
    z.score m = none ↔ ∀ s, (s, m) ∉ z.entries := by
  rw [Option.eq_none_iff_forall_ne_some]
  simp only [ne_eq, score_eq_some]

instance : Membership α (ZSet σ α) := ⟨fun z m => (z.score m).isSome⟩

instance (z : ZSet σ α) (m : α) : Decidable (m ∈ z) :=
  inferInstanceAs (Decidable ((z.score m).isSome = true))

theorem mem_def {z : ZSet σ α} {m : α} : m ∈ z ↔ (z.score m).isSome = true := Iff.rfl

theorem mem_iff {z : ZSet σ α} {m : α} : m ∈ z ↔ ∃ s, z.score m = some s := by
  rw [mem_def, Option.isSome_iff_exists]

theorem not_mem_iff {z : ZSet σ α} {m : α} : m ∉ z ↔ z.score m = none := by
  rw [mem_def, Bool.not_eq_true, Option.isSome_eq_false_iff, Option.isNone_iff_eq_none]

theorem mem_iff_map {z : ZSet σ α} {m : α} : m ∈ z ↔ m ∈ z.entries.map Prod.snd := by
  simp [mem_iff, score_eq_some]

@[simp] theorem score_empty (m : α) : (empty : ZSet σ α).score m = none := rfl

@[simp] theorem not_mem_empty (m : α) : m ∉ (empty : ZSet σ α) := by
  simp [not_mem_iff]

theorem nonempty_iff {z : ZSet σ α} : z.nonempty = true ↔ ∃ m, m ∈ z := by
  cases he : z.entries with
  | nil => simp [nonempty, he, mem_iff_map]
  | cons e es =>
    simp only [nonempty, he, mem_iff_map, List.map_cons, List.isEmpty_cons]
    exact ⟨fun _ => ⟨e.2, by simp⟩, fun _ => rfl⟩

theorem nonempty_eq_false {z : ZSet σ α} : z.nonempty = false ↔ ∀ m, m ∉ z := by
  rw [← Bool.not_eq_true, nonempty_iff, not_exists]

@[simp] theorem nonempty_empty : (empty : ZSet σ α).nonempty = false := rfl

/-! How each update changes the scores. -/

theorem score_rem (z : ZSet σ α) (m x : α) :
    (z.rem m).score x = if x = m then none else z.score x := by
  split_ifs with h
  · subst h
    rw [score_eq_none]
    simp [rem]
  · ext s
    simp [score_eq_some, rem, h]

theorem score_add (z : ZSet σ α) (s : σ) (m x : α) :
    (z.add s m).score x = if x = m then some s else z.score x := by
  split_ifs with h
  · subst h
    rw [score_eq_some]
    exact mem_insertRanked.mpr (Or.inl rfl)
  · have hr := score_rem z m x
    rw [if_neg h] at hr
    rw [← hr]
    ext t
    simp only [score_eq_some, add, mem_insertRanked, Prod.mk.injEq]
    tauto

@[simp] theorem score_add_self (z : ZSet σ α) (s : σ) (m : α) : (z.add s m).score m = some s := by
  simp [score_add]

@[simp] theorem mem_add {z : ZSet σ α} {s : σ} {m x : α} : x ∈ z.add s m ↔ x = m ∨ x ∈ z := by
  rw [mem_def, score_add]
  split_ifs with h <;> simp [h, mem_def]

@[simp] theorem mem_rem {z : ZSet σ α} {m x : α} : x ∈ z.rem m ↔ x ≠ m ∧ x ∈ z := by
  rw [mem_def, score_rem]
  split_ifs with h <;> simp [h, mem_def]

/-- A sorted set is determined by its scores. -/
theorem ext_score {z w : ZSet σ α} (h : ∀ m, z.score m = w.score m) : z = w := by
  have same : ∀ e, e ∈ z.entries ↔ e ∈ w.entries := by
    intro e
    rw [← score_eq_some, ← score_eq_some, h]
  have perm : z.entries.Perm w.entries :=
    (List.perm_ext_iff_of_nodup (List.Nodup.of_map _ z.unique) (List.Nodup.of_map _ w.unique)).mpr
      same
  have antisymm : ∀ a b : σ × α, a ∈ z.entries → b ∈ w.entries → Before a b → Before b a →
      a = b := by
    intro a b _ _ hab hba
    have never : ¬Before a a := by
      rintro (hlt | ⟨-, hlt⟩)
      · exact lt_irrefl _ hlt
      · exact lt_irrefl _ hlt
    exact absurd (hab.trans hba) never
  exact ZSet.ext (perm.eq_of_pairwise antisymm z.ranked w.ranked)

/-- A member that is moved to its own score stays where it is. -/
theorem add_of_score {z : ZSet σ α} {s : σ} {m : α} (h : z.score m = some s) : z.add s m = z := by
  apply ext_score
  intro x
  rw [score_add]
  split_ifs with hx
  · rw [hx, h]
  · rfl

theorem score_remRangeByScore (z : ZSet σ α) (lo hi : Option σ) (m : α) :
    (z.remRangeByScore lo hi).score m = (z.score m).filter (fun s => !inRange lo hi s) := by
  ext s
  have entries : (s, m) ∈ (z.remRangeByScore lo hi).entries ↔
      (s, m) ∈ z.entries ∧ (!inRange lo hi s) = true := by
    simp [remRangeByScore]
  rw [score_eq_some, entries, ← score_eq_some, Option.filter_eq_some_iff]

@[simp] theorem nonempty_add (z : ZSet σ α) (s : σ) (m : α) : (z.add s m).nonempty = true :=
  nonempty_iff.mpr ⟨m, by simp⟩

theorem card_rem_of_not_mem {z : ZSet σ α} {m : α} (h : m ∉ z) : (z.rem m).card = z.card := by
  have keep : z.entries.filter (fun e => e.2 ≠ m) = z.entries := by
    refine List.filter_eq_self.mpr ?_
    intro e he
    have hin : e.2 ∈ z := mem_iff_map.mpr (List.mem_map_of_mem he)
    simp only [decide_eq_true_eq]
    rintro rfl
    exact h hin
  exact congrArg List.length keep

/-- A member has one entry. -/
theorem entries_perm_of_score {z : ZSet σ α} {m : α} {s : σ} (h : z.score m = some s) :
    z.entries.Perm ((s, m) :: (z.rem m).entries) := by
  have back : (z.rem m).add s m = z := by
    apply ext_score
    intro x
    rw [score_add, score_rem]
    split_ifs with hx
    · rw [hx, h]
    · rfl
  have inserted := insertRanked_perm (s, m) ((z.rem m).rem m).entries
  have twice : (z.rem m).rem m = z.rem m := by
    apply ext_score
    intro x
    simp only [score_rem]
    split_ifs <;> rfl
  have entries : ((z.rem m).add s m).entries = insertRanked (s, m) ((z.rem m).rem m).entries := rfl
  rw [twice] at inserted entries
  rw [back] at entries
  rw [entries]
  exact inserted

theorem card_add_of_not_mem {z : ZSet σ α} {s : σ} {m : α} (h : m ∉ z) :
    (z.add s m).card = z.card + 1 := by
  have hl := (insertRanked_perm (s, m) (z.rem m).entries).length_eq
  have hr := card_rem_of_not_mem h
  simp only [card, add, hl, List.length_cons] at hr ⊢
  omega

theorem card_eq_zero {z : ZSet σ α} : z.card = 0 ↔ z.nonempty = false := by
  simp [card, nonempty]

def members (z : ZSet σ α) : Finset α := (z.entries.map Prod.snd).toFinset

@[simp] theorem mem_members {z : ZSet σ α} {m : α} : m ∈ z.members ↔ m ∈ z := by
  simp [members, mem_iff_map]

/-- ZCARD counts the members. -/
theorem card_members (z : ZSet σ α) : z.members.card = z.card := by
  rw [members, List.toFinset_card_of_nodup z.unique, List.length_map]
  rfl

theorem encard_members (z : ZSet σ α) : {m | m ∈ z}.encard = z.card := by
  have coe : {m | m ∈ z} = (z.members : Set α) := by
    ext m
    simp
  rw [coe, Set.encard_coe_eq_coe_finsetCard, card_members]

theorem card_eq_sum {z : ZSet σ α} {l : Finset α} (h : z.members ⊆ l) :
    z.card = ∑ m ∈ l, if m ∈ z then 1 else 0 := by
  have within : l.filter (fun m => m ∈ z) = z.members := by
    ext m
    rw [Finset.mem_filter, mem_members]
    exact and_iff_right_of_imp (fun hm => h (mem_members.mpr hm))
  rw [Finset.sum_boole, within, card_members]
  rfl

/-! A range query without a lower bound reads a prefix in rank order. -/

theorem limit_isPrefix {β : Type} (count : Int) (l : List β) : limit count l <+: l := by
  unfold limit
  split_ifs
  · exact List.prefix_rfl
  · exact List.take_prefix _ _

theorem filter_le_isPrefix {l : List (σ × α)} (hl : l.Pairwise Before) (hi : Option σ) :
    l.filter (fun e => inRange none hi e.1) <+: l := by
  induction l with
  | nil => simp
  | cons x xs ih =>
    obtain ⟨hx, hxs⟩ := List.pairwise_cons.mp hl
    by_cases hin : inRange none hi x.1 = true
    · rw [List.filter_cons_of_pos (by simpa using hin)]
      exact List.prefix_cons_inj x |>.mpr (ih hxs)
    · rw [List.filter_cons_of_neg (by simpa using hin)]
      -- past the bound every later entry is past it too
      have none_left : xs.filter (fun e => inRange none hi e.1) = [] := by
        rw [List.filter_eq_nil_iff]
        intro y hy hyin
        cases hi with
        | none => simp [inRange] at hin
        | some b =>
          simp only [inRange, Bool.true_and, decide_eq_true_eq] at hin hyin
          exact hin ((hx y hy).score_le.trans hyin)
      rw [none_left]
      exact List.nil_prefix

theorem rangeByScore_isPrefix (z : ZSet σ α) (hi : Option σ) (count : Int) :
    z.rangeByScore none hi count <+: z.entries :=
  (limit_isPrefix _ _).trans (filter_le_isPrefix z.ranked hi)

theorem mem_rangeByScore {z : ZSet σ α} {lo hi : Option σ} {count : Int} {e : σ × α}
    (h : e ∈ z.rangeByScore lo hi count) : e ∈ z.entries ∧ inRange lo hi e.1 = true := by
  have := (limit_isPrefix count _).subset h
  simpa using this

/-- A limit as large as the set cuts nothing off. -/
theorem rangeByScore_of_card_le {z : ZSet σ α} {count : Int} (lo hi : Option σ)
    (h : (z.card : Int) ≤ count) :
    z.rangeByScore lo hi count = z.entries.filter (fun e => inRange lo hi e.1) := by
  have hle : (z.entries.filter (fun e => inRange lo hi e.1)).length ≤ z.card :=
    List.length_filter_le _ _
  unfold rangeByScore limit
  split_ifs
  · rfl
  · exact List.take_of_length_le (by omega)

/-- What a range query without a lower bound reads: as many of the first entries as the limit
allows and the bound admits. -/
theorem rangeByScore_eq_take (z : ZSet σ α) (hi : Option σ) {count : Int} (hc : 0 ≤ count) :
    z.rangeByScore none hi count =
      z.entries.take (min count.toNat (z.entries.countP (fun e => inRange none hi e.1))) := by
  have due := List.prefix_iff_eq_take.mp (filter_le_isPrefix z.ranked hi)
  rw [← List.countP_eq_length_filter] at due
  unfold rangeByScore limit
  rw [if_neg (not_lt.mpr hc), due, List.take_take]

theorem range_eq_slice (z : ZSet σ α) {limit : Nat} (skip : Nat) (hl : 0 < limit) :
    z.range (-limit - skip) (-1 - skip) = z.slice skip limit := by
  have start : (-limit - skip : Int) < 0 := by omega
  have stop : (-1 - skip : Int) < 0 := by omega
  have last : ((-1 - skip : Int) + z.card + 1).toNat = z.card - skip := by omega
  have first : ((-limit - skip : Int) + z.card).toNat = z.card - skip - limit := by omega
  have length : (z.entries.rdrop skip).length = z.card - skip := by
    simp [List.rdrop, card]
  rw [range, if_pos start, if_pos stop, last, first, slice, List.rtake, length]
  rfl

theorem mem_of_mem_range {z : ZSet σ α} {lo hi : Option σ} {count : Int} {m : α}
    (h : m ∈ (z.rangeByScore lo hi count).map Prod.snd) : m ∈ z := by
  obtain ⟨e, he, rfl⟩ := List.mem_map.mp h
  exact mem_iff_map.mpr (List.mem_map_of_mem (mem_rangeByScore he).1)

/-- Popping as many entries as a prefix has removes exactly the members of the prefix. -/
theorem score_popFirst {z : ZSet σ α} {p : List (σ × α)} (hp : p <+: z.entries) (m : α) :
    (z.popFirst p.length).score m = if m ∈ p.map Prod.snd then none else z.score m := by
  obtain ⟨r, hr⟩ := hp
  have hdrop : (z.popFirst p.length).entries = r := by simp [popFirst, ← hr]
  have hnd : (p.map Prod.snd).Disjoint (r.map Prod.snd) := by
    have := z.unique
    rw [← hr, List.map_append] at this
    exact List.disjoint_of_nodup_append this
  split_ifs with h
  · rw [score_eq_none, hdrop]
    intro s hs
    exact hnd h (List.mem_map_of_mem (f := Prod.snd) hs)
  · ext s
    rw [score_eq_some, score_eq_some, hdrop, ← hr, List.mem_append]
    have hnp : (s, m) ∉ p := fun hin => h (List.mem_map_of_mem (f := Prod.snd) hin)
    tauto

end ZSet

end Redis
