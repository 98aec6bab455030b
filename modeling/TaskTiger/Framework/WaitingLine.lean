import TaskTiger.Framework.Machine
import TaskTiger.Framework.SortedSet

namespace Redis

variable {σ α : Type} [LinearOrder σ] [LinearOrder α]

theorem Before.asymm {a b : σ × α} (h : Before a b) : ¬Before b a := by
  intro h'
  rcases h.trans h' with hlt | ⟨-, hlt⟩
  · exact lt_irrefl _ hlt
  · exact lt_irrefl _ hlt

namespace ZSet

/-- ZRANK. -/
def rank (z : ZSet σ α) (m : α) : Option Nat := z.entries.findIdx? (fun e => e.2 = m)

variable {z w : ZSet σ α} {m : α} {n k : Nat}

theorem rank_eq_some : z.rank m = some n ↔ ∃ s, z.entries[n]? = some (s, m) := by
  constructor
  · intro h
    obtain ⟨hn, hm, -⟩ := List.findIdx?_eq_some_iff_getElem.mp h
    refine ⟨z.entries[n].1, ?_⟩
    rw [List.getElem?_eq_getElem hn]
    exact congrArg some (Prod.ext rfl (by simpa using hm))
  · intro h
    obtain ⟨s, hs⟩ := h
    obtain ⟨hn, hs⟩ := List.getElem?_eq_some_iff.mp hs
    refine List.findIdx?_eq_some_iff_getElem.mpr ⟨hn, by simp [hs], ?_⟩
    intro j hj heq
    -- two entries with the same member would be one
    have hjn : j < z.entries.length := hj.trans hn
    have same : (z.entries.map Prod.snd).get ⟨j, by simpa using hjn⟩ =
        (z.entries.map Prod.snd).get ⟨n, by simpa using hn⟩ := by
      simpa [hs] using heq
    have := (List.Nodup.getElem_inj_iff z.unique).mp same
    omega

theorem exists_rank (h : m ∈ z) : ∃ n, z.rank m = some n := by
  obtain ⟨s, hs⟩ := mem_iff.mp h
  obtain ⟨n, hn⟩ := List.mem_iff_getElem?.mp (score_eq_some.mp hs)
  exact ⟨n, rank_eq_some.mpr ⟨s, hn⟩⟩

theorem mem_of_rank (h : z.rank m = some n) : m ∈ z := by
  obtain ⟨s, hs⟩ := rank_eq_some.mp h
  exact mem_iff.mpr ⟨s, score_eq_some.mpr (List.mem_of_getElem? hs)⟩

/-- The entries before one of the entries are the first ones, as many as its rank says. -/
theorem filter_before {s : σ} (h : z.rank m = some n) (hs : z.score m = some s) :
    z.entries.filter (fun e => Before e (s, m)) = z.entries.take n := by
  obtain ⟨s', hs'⟩ := rank_eq_some.mp h
  obtain rfl : s' = s := by
    have found := score_eq_some.mpr (List.mem_of_getElem? hs')
    simpa [found] using hs
  obtain ⟨hn, here⟩ := List.getElem?_eq_some_iff.mp hs'
  have parts : z.entries = z.entries.take n ++ (s', m) :: z.entries.drop (n + 1) := by
    rw [← here, List.cons_getElem_drop_succ, List.take_append_drop]
  have ranked := z.ranked
  rw [parts, List.pairwise_append, List.pairwise_cons] at ranked
  obtain ⟨-, ⟨later, -⟩, earlier⟩ := ranked
  have first : (z.entries.take n).filter (fun e => Before e (s', m)) = z.entries.take n := by
    refine List.filter_eq_self.mpr ?_
    intro e he
    simpa using earlier e he (s', m) (by simp)
  have rest : ((s', m) :: z.entries.drop (n + 1)).filter (fun e => Before e (s', m)) = [] := by
    refine List.filter_eq_nil_iff.mpr ?_
    intro e he
    rcases List.mem_cons.mp he with rfl | he
    · simpa using fun hb => Before.asymm hb hb
    · simpa using (later e he).asymm
  calc z.entries.filter (fun e => Before e (s', m))
      = (z.entries.take n ++ (s', m) :: z.entries.drop (n + 1)).filter
          (fun e => Before e (s', m)) := by rw [← parts]
    _ = z.entries.take n := by rw [List.filter_append, first, rest, List.append_nil]

/-- A member whose score stays does not fall back when nothing new comes before it. -/
theorem rank_le {s : σ} (hz : z.rank m = some n) (hw : w.rank m = some k) (hs : z.score m = some s)
    (hs' : w.score m = some s)
    (old : ∀ y u, w.score y = some u → Before (u, y) (s, m) → z.score y = some u) : k ≤ n := by
  have length {v : ZSet σ α} {j : Nat} (hv : v.rank m = some j) (hsv : v.score m = some s) :
      (v.entries.filter (fun e => Before e (s, m))).length = j := by
    obtain ⟨u, hu⟩ := rank_eq_some.mp hv
    obtain ⟨hj, -⟩ := List.getElem?_eq_some_iff.mp hu
    rw [filter_before hv hsv, List.length_take]
    omega
  rw [← length hz hs, ← length hw hs']
  have nodup : (w.entries.filter (fun e => Before e (s, m))).Nodup :=
    (List.Nodup.of_map _ w.unique).filter _
  refine (nodup.subperm ?_).length_le
  intro e he
  obtain ⟨hin, hb⟩ := List.mem_filter.mp he
  have before : Before e (s, m) := by simpa using hb
  exact List.mem_filter.mpr ⟨score_eq_some.mp (old e.2 e.1 (score_eq_some.mpr hin) before), hb⟩

theorem rank_of_popFirst {j : Nat} (h : (z.popFirst j).rank m = some k) :
    z.rank m = some (j + k) := by
  obtain ⟨s, hs⟩ := rank_eq_some.mp h
  refine rank_eq_some.mpr ⟨s, ?_⟩
  rwa [popFirst, List.getElem?_drop] at hs

end ZSet

end Redis

namespace Interleaving

variable {σ I : Type} {R : I → Type} {exec : (i : I) → σ → R i × σ} {P : σ → I → Prop}

/-- A line in which a client waits: `ahead` is how many are before it, none where it does not
wait. An admissible input that leaves it waiting brings it forward by `gain`, or by more. -/
structure WaitingLine (exec : (i : I) → σ → R i × σ) (P : σ → I → Prop) where
  ahead : σ → Option Nat
  gain : I → Nat
  forward : ∀ s i n m, P s i → ahead s = some n → ahead (step exec s i) = some m → m + gain i ≤ n

/-- Bounded waiting: who waits behind n others leaves the line in a run that gains more than n. -/
theorem WaitingLine.leaves (line : WaitingLine exec P) {s : σ} {l : List I} {n : Nat}
    (hl : Along exec P s l) (h : line.ahead s = some n) (more : n < (l.map line.gain).sum) :
    ∃ pre i post, l = pre ++ i :: post ∧ (∃ m, line.ahead (run exec s pre) = some m) ∧
      line.ahead (step exec (run exec s pre) i) = none := by
  induction l generalizing s n with
  | nil => simp at more
  | cons i l ih =>
    cases after : line.ahead (step exec s i) with
    | none => exact ⟨[], i, l, rfl, ⟨n, h⟩, after⟩
    | some m =>
      have come : m + line.gain i ≤ n := line.forward s i n m hl.1 h after
      have rest : m < (l.map line.gain).sum := by
        rw [List.map_cons, List.sum_cons] at more
        omega
      obtain ⟨pre, j, post, rfl, waits, left⟩ := ih hl.2 after rest
      exact ⟨i :: pre, j, post, rfl, waits, left⟩

end Interleaving
