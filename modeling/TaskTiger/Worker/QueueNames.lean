import TaskTiger.Framework.Glob

namespace TaskTiger

open Redis

/-- The text before each dot, from the left; the text read so far comes reversed. -/
def textUpToDots (read : List Char) : List Char → List (List Char)
  | [] => []
  | c :: cs =>
      if c = '.' then read.reverse :: textUpToDots (c :: read) cs else textUpToDots (c :: read) cs

def partsBeforeDots (s : String) : List String := (textUpToDots [] s.toList).map String.ofList

/-- For a string "a.b.c", yields "a", "a.b", "a.b.c". -/
def dottedParts (s : String) : List String := if s = "" then [] else partsBeforeDots s ++ [s]

/-- The text before each dot, from the right; the text comes reversed. -/
def textBeforeDots : List Char → List (List Char)
  | [] => []
  | c :: cs => if c = '.' then cs.reverse :: textBeforeDots cs else textBeforeDots cs

/-- For a string "a.b.c", yields "a.b.c", "a.b", "a". The first search starts left of the last
character, where the -1 of rfind ends the slice. -/
def reversedDottedParts (s : String) : List String :=
  if s = "" then [] else s :: (textBeforeDots s.toList.dropLast.reverse).map String.ofList

/-- The loop over the parts of the queue name. -/
def partsMatch (onlyQueues excludeQueues : Finset String) : List String → Bool
  | [] => decide (onlyQueues = ∅)
  | part :: parts =>
      if part ∈ excludeQueues then false
      else if part ∈ onlyQueues then true
      else partsMatch onlyQueues excludeQueues parts

def queueMatches (queue : String) (onlyQueues excludeQueues : Finset String) : Bool :=
  partsMatch onlyQueues excludeQueues (reversedDottedParts queue)

/-- Worker._filter_queues. -/
def filterQueues (onlyQueues excludeQueues queues : Finset String) : Finset String :=
  queues.filter (fun q => queueMatches q onlyQueues excludeQueues)

/-- Worker._retrieve_queues of a set: SMEMBERS, or SSCAN for a single queue name. -/
def retrieveQueues (onlyQueues members : Finset String) : Finset String :=
  if onlyQueues.card ≠ 1 then members
  else members.filter
    (fun q => ∀ name ∈ onlyQueues, globMatch (globEscape name.toList ++ ['*']) q.toList = true)

theorem prefix_of_mem_textBeforeDots {t p : List Char} (h : p ∈ textBeforeDots t) :
    p <+: t.reverse := by
  induction t with
  | nil => simp [textBeforeDots] at h
  | cons c cs ih =>
    have grow : cs.reverse <+: (c :: cs).reverse := by simp
    rw [textBeforeDots] at h
    split_ifs at h
    · rcases List.mem_cons.mp h with rfl | h
      · exact grow
      · exact (ih h).trans grow
    · exact (ih h).trans grow

theorem prefix_of_mem_reversedDottedParts {s part : String} (h : part ∈ reversedDottedParts s) :
    part.toList <+: s.toList := by
  unfold reversedDottedParts at h
  split_ifs at h
  · simp at h
  · rcases List.mem_cons.mp h with rfl | h
    · exact List.prefix_rfl
    · obtain ⟨p, hp, rfl⟩ := List.mem_map.mp h
      have hpre := prefix_of_mem_textBeforeDots hp
      rw [List.reverse_reverse] at hpre
      rw [String.toList_ofList]
      exact hpre.trans (List.dropLast_prefix _)

/-- A queue that is matched through a list of names has one of them among its parts. -/
theorem mem_of_partsMatch {onlyQueues excludeQueues : Finset String} {parts : List String}
    (h : partsMatch onlyQueues excludeQueues parts = true) (hne : onlyQueues ≠ ∅) :
    ∃ part ∈ parts, part ∈ onlyQueues := by
  induction parts with
  | nil => exact absurd (by simpa [partsMatch] using h) hne
  | cons part parts ih =>
    rw [partsMatch] at h
    split_ifs at h with _ hin
    · exact ⟨part, by simp, hin⟩
    · obtain ⟨p, hp, honly⟩ := ih h
      exact ⟨p, by simp [hp], honly⟩

/-- The SSCAN leaves no queue out that the filter keeps. -/
theorem mem_filter_retrieve {onlyQueues excludeQueues members : Finset String} {q : String} :
    q ∈ filterQueues onlyQueues excludeQueues (retrieveQueues onlyQueues members) ↔
      q ∈ members ∧ queueMatches q onlyQueues excludeQueues = true := by
  unfold filterQueues retrieveQueues
  rw [Finset.mem_filter]
  split_ifs with hcard
  · rfl
  · obtain ⟨name, rfl⟩ := Finset.card_eq_one.mp (not_not.mp hcard)
    rw [Finset.mem_filter]
    constructor
    · rintro ⟨⟨hq, _⟩, hm⟩
      exact ⟨hq, hm⟩
    · rintro ⟨hq, hm⟩
      refine ⟨⟨hq, ?_⟩, hm⟩
      intro only honly
      obtain rfl := Finset.mem_singleton.mp honly
      obtain ⟨part, hpart, hin⟩ := mem_of_partsMatch hm (Finset.singleton_ne_empty only)
      obtain rfl := Finset.mem_singleton.mp hin
      exact (globMatch_escape_star _ _).mpr (prefix_of_mem_reversedDottedParts hpart)

/-- The pattern that _retrieve_queues passes to SSCAN for a single queue name. -/
def queuePattern (name : String) : List Char := globEscape name.toList ++ ['*']

theorem queuePattern_matches (name queue : String) :
    globMatch (queuePattern name) queue.toList = true ↔ name.toList <+: queue.toList :=
  globMatch_escape_star _ _

/-- What SSCAN returns of a set that does not change. -/
structure Scanned (pattern : List Char) (members : Finset String) (scanned : List String) :
    Prop where
  complete : ∀ q ∈ members, globMatch pattern q.toList = true → q ∈ scanned
  sound : ∀ q ∈ scanned, q ∈ members ∧ globMatch pattern q.toList = true

theorem Scanned.retrieveQueues_eq {name : String} {members : Finset String} {scanned : List String}
    (h : Scanned (queuePattern name) members scanned) :
    retrieveQueues {name} members = scanned.toFinset := by
  ext q
  have single : ({name} : Finset String).card = 1 := Finset.card_singleton name
  rw [retrieveQueues, if_neg (not_not.mpr single), Finset.mem_filter, List.mem_toFinset]
  constructor
  · intro hq
    exact h.complete q hq.1 (hq.2 name (Finset.mem_singleton_self name))
  · intro hq
    refine ⟨(h.sound q hq).1, ?_⟩
    intro only honly
    rw [Finset.mem_singleton.mp honly]
    exact (h.sound q hq).2

/-- The filter keeps the same queues of the scan with the pattern as of all members, and the
pattern matches what starts with the name. -/
theorem filter_sscan_eq (members excludeQueues : Finset String) (name : String)
    (scanned : List String) (sscan : Scanned (queuePattern name) members scanned) :
    filterQueues {name} excludeQueues scanned.toFinset = filterQueues {name} excludeQueues members ∧
      ∀ queue : String, globMatch (queuePattern name) queue.toList = true ↔
        name.toList <+: queue.toList := by
  refine ⟨?_, queuePattern_matches name⟩
  ext q
  rw [← sscan.retrieveQueues_eq, mem_filter_retrieve, filterQueues, Finset.mem_filter]

theorem filter_sscan_eq_backslash :
    filterQueues {"[a\\"} {"[a\\.b"} ["[a\\.c", "[a\\.b", "[a\\.c"].toFinset =
      filterQueues {"[a\\"} {"[a\\.b"} {"[a\\.b", "[a\\.c", "a"} ∧
      ∀ queue : String, globMatch (queuePattern "[a\\") queue.toList = true ↔
        "[a\\".toList <+: queue.toList := by
  apply filter_sscan_eq
  constructor
  · simp only [queuePattern_matches]
    decide
  · simp only [queuePattern_matches]
    decide

/-! What the most specific name decides. -/

/-- The longest part that occurs among the names. -/
structure Governs (names : Finset String) (parts : List String) (part : String) : Prop where
  mem : part ∈ parts
  named : part ∈ names
  longest : ∀ p ∈ parts, p ∈ names → p.length ≤ part.length

/-- Whether a queue with these parts is included. -/
def Included (onlyQueues excludeQueues : Finset String) (parts : List String) : Prop :=
  (∃ part, Governs (onlyQueues ∪ excludeQueues) parts part ∧ part ∉ excludeQueues) ∨
    (∀ part ∈ parts, part ∉ onlyQueues ∪ excludeQueues) ∧ onlyQueues = ∅

section

variable {onlyQueues excludeQueues names : Finset String} {part : String} {parts : List String}

theorem included_congr {parts' : List String} (h : ∀ p, p ∈ parts ↔ p ∈ parts') :
    Included onlyQueues excludeQueues parts ↔ Included onlyQueues excludeQueues parts' := by
  have same : ∀ p, Governs (onlyQueues ∪ excludeQueues) parts p ↔
      Governs (onlyQueues ∪ excludeQueues) parts' p := by
    intro p
    constructor
    · intro g
      exact ⟨(h p).mp g.mem, g.named, fun p' hp' => g.longest p' ((h p').mpr hp')⟩
    · intro g
      exact ⟨(h p).mpr g.mem, g.named, fun p' hp' => g.longest p' ((h p').mp hp')⟩
  simp only [Included, same, h]

theorem governs_cons_of_mem (hin : part ∈ names) (shorter : ∀ p ∈ parts, p.length < part.length)
    (p : String) : Governs names (part :: parts) p ↔ p = part := by
  constructor
  · intro g
    have hle := g.longest part List.mem_cons_self hin
    rcases List.mem_cons.mp g.mem with rfl | hp
    · rfl
    · have hlt := shorter p hp
      omega
  · intro h
    subst h
    refine ⟨List.mem_cons_self, hin, ?_⟩
    intro p' hp' _
    rcases List.mem_cons.mp hp' with rfl | hp'
    · exact le_rfl
    · exact (shorter p' hp').le

theorem governs_cons_of_notMem (hout : part ∉ names) (p : String) :
    Governs names (part :: parts) p ↔ Governs names parts p := by
  have other : ∀ p', p' ∈ names → (p' ∈ part :: parts ↔ p' ∈ parts) := by
    intro p' hp'
    have hne : p' ≠ part := fun h => hout (h ▸ hp')
    simp [hne]
  constructor
  · intro g
    exact ⟨(other p g.named).mp g.mem, g.named,
      fun p' hp' hn => g.longest p' ((other p' hn).mpr hp') hn⟩
  · intro g
    exact ⟨(other p g.named).mpr g.mem, g.named,
      fun p' hp' hn => g.longest p' ((other p' hn).mp hp') hn⟩

/-- The longest part decides if it is named; otherwise the others do. -/
theorem included_cons (shorter : ∀ p ∈ parts, p.length < part.length) :
    Included onlyQueues excludeQueues (part :: parts) ↔
      if part ∈ onlyQueues ∪ excludeQueues then part ∉ excludeQueues
      else Included onlyQueues excludeQueues parts := by
  unfold Included
  split_ifs with hin
  · simp only [governs_cons_of_mem hin shorter, exists_eq_left]
    constructor
    · intro h
      rcases h with h | h
      · exact h
      · exact absurd hin (h.1 part List.mem_cons_self)
    · exact Or.inl
  · simp only [governs_cons_of_notMem hin, List.forall_mem_cons, hin, not_false_eq_true, true_and]

theorem partsMatch_iff (decreasing : parts.Pairwise (fun p q => q.length < p.length)) :
    partsMatch onlyQueues excludeQueues parts = true ↔ Included onlyQueues excludeQueues parts := by
  induction parts with
  | nil =>
    have none : ¬∃ p, Governs (onlyQueues ∪ excludeQueues) [] p ∧ p ∉ excludeQueues :=
      fun ⟨p, g, _⟩ => List.not_mem_nil g.mem
    simp [partsMatch, Included, none]
  | cons part parts ih =>
    obtain ⟨shorter, decreasing⟩ := List.pairwise_cons.mp decreasing
    rw [partsMatch, included_cons shorter, ← ih decreasing]
    by_cases hex : part ∈ excludeQueues
    · simp [hex]
    · by_cases honly : part ∈ onlyQueues
      · simp [hex, honly]
      · simp [hex, honly]

end

/-! The parts of a name from the left and from the right. -/

theorem textUpToDots_concat (read cs : List Char) (c : Char) :
    textUpToDots read (cs ++ [c]) =
      textUpToDots read cs ++ if c = '.' then [read.reverse ++ cs] else [] := by
  induction cs generalizing read with
  | nil =>
    simp only [List.nil_append, textUpToDots, List.append_nil]
  | cons d cs ih =>
    have hread : (d :: read).reverse ++ cs = read.reverse ++ d :: cs := by simp
    rw [List.cons_append, textUpToDots, textUpToDots, ih, hread]
    split_ifs <;> rfl

theorem textBeforeDots_reverse (cs : List Char) :
    textBeforeDots cs.reverse = (textUpToDots [] cs).reverse := by
  induction cs using List.reverseRecOn with
  | nil => rfl
  | append_singleton cs c ih =>
    rw [List.reverse_append, List.reverse_singleton, List.singleton_append, textBeforeDots, ih,
      textUpToDots_concat, List.reverse_reverse]
    split_ifs <;> simp

theorem length_textUpToDots {read cs p : List Char} (h : p ∈ textUpToDots read cs) :
    read.length ≤ p.length ∧ p.length < read.length + cs.length := by
  induction cs generalizing read with
  | nil => simp [textUpToDots] at h
  | cons c cs ih =>
    have later : p ∈ textUpToDots (c :: read) cs → _ := ih
    rw [textUpToDots] at h
    simp only [List.length_cons] at later ⊢
    split_ifs at h
    · rcases List.mem_cons.mp h with rfl | h
      · simp
      · have := later h
        omega
    · have := later h
      omega

theorem increasing_textUpToDots (read cs : List Char) :
    (textUpToDots read cs).Pairwise (fun p q => p.length < q.length) := by
  induction cs generalizing read with
  | nil => exact List.Pairwise.nil
  | cons c cs ih =>
    rw [textUpToDots]
    split_ifs
    · refine List.pairwise_cons.mpr ⟨?_, ih _⟩
      intro p hp
      have := (length_textUpToDots hp).1
      simp only [List.length_cons, List.length_reverse] at this ⊢
      omega
    · exact ih _

theorem length_partsBeforeDots {s p : String} (h : p ∈ partsBeforeDots s) :
    p.length < s.length := by
  obtain ⟨cs, hcs, rfl⟩ := List.mem_map.mp h
  have := (length_textUpToDots hcs).2
  simpa [← String.length_toList] using this

theorem increasing_partsBeforeDots (s : String) :
    (partsBeforeDots s).Pairwise (fun p q => p.length < q.length) := by
  refine List.Pairwise.map _ ?_ (increasing_textUpToDots [] s.toList)
  intro p q h
  simpa using h

theorem reversedDottedParts_eq {s : String} (hne : s ≠ "") :
    reversedDottedParts s =
      s :: ((textUpToDots [] s.toList.dropLast).map String.ofList).reverse := by
  rw [reversedDottedParts, if_neg hne, textBeforeDots_reverse, List.map_reverse]

theorem reversedDottedParts_of_no_dot {s : String} (hdot : ∀ name, s ≠ name ++ ".") :
    reversedDottedParts s = (dottedParts s).reverse := by
  rw [dottedParts]
  split_ifs with hs
  · rw [reversedDottedParts, if_pos hs, List.reverse_nil]
  · have hne : s.toList ≠ [] := by simpa using hs
    obtain ⟨cs, c, hcs⟩ := List.eq_nil_or_concat' s.toList |>.resolve_left hne
    have hc : c ≠ '.' := by
      rintro rfl
      apply hdot (String.ofList cs)
      apply String.toList_inj.mp
      simp [hcs]
    rw [reversedDottedParts_eq hs, partsBeforeDots, hcs, List.dropLast_concat, textUpToDots_concat,
      if_neg hc, List.append_nil, List.reverse_append, List.reverse_singleton,
      List.singleton_append]

theorem append_dot_ne (name : String) : name ++ "." ≠ "" := by
  intro h
  have := congrArg String.toList h
  simp at this

/-- A dot at the end: the forward search yields the name before it, the backward one does not. -/
theorem dottedParts_append_dot (name : String) :
    dottedParts (name ++ ".") = partsBeforeDots name ++ [name] ++ [name ++ "."] := by
  have hlist : (name ++ ".").toList = name.toList ++ ['.'] := by simp
  rw [dottedParts, if_neg (append_dot_ne name), partsBeforeDots, hlist, textUpToDots_concat,
    if_pos rfl]
  simp [partsBeforeDots]

theorem reversedDottedParts_append_dot (name : String) :
    reversedDottedParts (name ++ ".") = (name ++ ".") :: (partsBeforeDots name).reverse := by
  have hlist : (name ++ ".").toList = name.toList ++ ['.'] := by simp
  rw [reversedDottedParts_eq (append_dot_ne name), hlist, List.dropLast_concat, partsBeforeDots]

theorem increasing_dottedParts (s : String) :
    (dottedParts s).Pairwise (fun p q => p.length < q.length) := by
  rw [dottedParts]
  split_ifs
  · exact List.Pairwise.nil
  · refine List.pairwise_append.mpr ⟨increasing_partsBeforeDots s, List.pairwise_singleton _ _, ?_⟩
    intro p hp q hq
    obtain rfl := List.mem_singleton.mp hq
    exact length_partsBeforeDots hp

/-! queue_matches. -/

/-- queue_matches follows the longest dotted part that occurs in either set. -/
structure FollowsMostSpecific (queue : String) (onlyQueues excludeQueues : Finset String) :
    Prop where
  governed : ∀ part, Governs (onlyQueues ∪ excludeQueues) (dottedParts queue) part →
    (queueMatches queue onlyQueues excludeQueues = true ↔ part ∉ excludeQueues)
  unnamed : (∀ part ∈ dottedParts queue, part ∉ onlyQueues ∪ excludeQueues) →
    (queueMatches queue onlyQueues excludeQueues = true ↔ onlyQueues = ∅)

section

variable {queue name : String} {onlyQueues excludeQueues names : Finset String}

theorem exists_governs {parts : List String} (h : ∃ part ∈ parts, part ∈ names) :
    ∃ part, Governs names parts part := by
  obtain ⟨p, hp, hin⟩ := h
  have hne : (parts.toFinset.filter (· ∈ names)).Nonempty := ⟨p, by simp [hp, hin]⟩
  obtain ⟨part, hpart, longest⟩ := Finset.exists_max_image _ String.length hne
  simp only [Finset.mem_filter, List.mem_toFinset] at hpart longest
  exact ⟨part, hpart.1, hpart.2, fun p' hp' hn => longest p' ⟨hp', hn⟩⟩

theorem Governs.unique {parts : List String} {p q : String}
    (increasing : parts.Pairwise (fun p q => p.length < q.length))
    (hp : Governs names parts p) (hq : Governs names parts q) : p = q := by
  have hlength : p.length = q.length :=
    (hq.longest p hp.mem hp.named).antisymm (hp.longest q hq.mem hq.named)
  have distinct : (parts.map String.length).Nodup :=
    (List.pairwise_map.mpr increasing).imp (fun h => h.ne)
  exact List.inj_on_of_nodup_map distinct hp.mem hq.mem hlength

theorem followsMostSpecific_iff : FollowsMostSpecific queue onlyQueues excludeQueues ↔
    (queueMatches queue onlyQueues excludeQueues = true ↔
      Included onlyQueues excludeQueues (dottedParts queue)) := by
  by_cases hnamed : ∃ part ∈ dottedParts queue, part ∈ onlyQueues ∪ excludeQueues
  · obtain ⟨part, g⟩ := exists_governs hnamed
    have unique : ∀ p, Governs (onlyQueues ∪ excludeQueues) (dottedParts queue) p ↔ p = part := by
      intro p
      constructor
      · exact fun gp => gp.unique (increasing_dottedParts queue) g
      · exact fun h => h ▸ g
    have some : ¬∀ part ∈ dottedParts queue, part ∉ onlyQueues ∪ excludeQueues :=
      fun h => h part g.mem g.named
    simp only [Included, unique, exists_eq_left, some, false_and, or_false]
    constructor
    · intro h
      exact h.governed part g
    · intro h
      refine ⟨?_, fun hnone => absurd hnone some⟩
      intro p hp
      rw [(unique p).mp hp]
      exact h
  · have none : ∀ part ∈ dottedParts queue, part ∉ onlyQueues ∪ excludeQueues :=
      fun part hp hin => hnamed ⟨part, hp, hin⟩
    have ungoverned : ∀ p, ¬Governs (onlyQueues ∪ excludeQueues) (dottedParts queue) p :=
      fun p g => none p g.mem g.named
    simp only [Included, ungoverned, false_and, exists_false, false_or]
    constructor
    · intro h
      rw [h.unnamed none]
      exact ⟨fun he => ⟨none, he⟩, And.right⟩
    · intro h
      refine ⟨fun p g => absurd g (ungoverned p), ?_⟩
      intro _
      rw [h]
      exact ⟨And.right, fun he => ⟨none, he⟩⟩

theorem queueMatches_of_no_dot (hdot : ∀ name, queue ≠ name ++ ".") :
    queueMatches queue onlyQueues excludeQueues = true ↔
      Included onlyQueues excludeQueues (dottedParts queue) := by
  rw [queueMatches, reversedDottedParts_of_no_dot hdot,
    partsMatch_iff (List.pairwise_reverse.mpr (increasing_dottedParts queue))]
  exact included_congr (fun p => List.mem_reverse)

theorem length_append_dot (name : String) : (name ++ ".").length = name.length + 1 := by
  simp [← String.length_toList]

/-- The search from the right decides by the name and, past it, by what is before its dots. -/
theorem queueMatches_append_dot :
    queueMatches (name ++ ".") onlyQueues excludeQueues = true ↔
      if name ++ "." ∈ onlyQueues ∪ excludeQueues then name ++ "." ∉ excludeQueues
      else Included onlyQueues excludeQueues (partsBeforeDots name) := by
  have shorter : ∀ p ∈ (partsBeforeDots name).reverse, p.length < (name ++ ".").length := by
    intro p hp
    have := length_partsBeforeDots (List.mem_reverse.mp hp)
    rw [length_append_dot]
    omega
  have decreasing := List.pairwise_cons.mpr
    ⟨shorter, List.pairwise_reverse.mpr (increasing_partsBeforeDots name)⟩
  rw [queueMatches, reversedDottedParts_append_dot, partsMatch_iff decreasing,
    included_cons shorter, included_congr (fun p => List.mem_reverse)]

theorem included_append_dot :
    Included onlyQueues excludeQueues (dottedParts (name ++ ".")) ↔
      if name ++ "." ∈ onlyQueues ∪ excludeQueues then name ++ "." ∉ excludeQueues
      else if name ∈ onlyQueues ∪ excludeQueues then name ∉ excludeQueues
      else Included onlyQueues excludeQueues (partsBeforeDots name) := by
  have same : ∀ p, p ∈ dottedParts (name ++ ".") ↔
      p ∈ (name ++ ".") :: name :: partsBeforeDots name := by
    intro p
    simp only [dottedParts_append_dot, List.mem_append, List.mem_cons, List.not_mem_nil, or_false]
    tauto
  have before : ∀ p ∈ partsBeforeDots name, p.length < name.length :=
    fun p hp => length_partsBeforeDots hp
  have shorter : ∀ p ∈ name :: partsBeforeDots name, p.length < (name ++ ".").length := by
    intro p hp
    rw [length_append_dot]
    rcases List.mem_cons.mp hp with rfl | hp
    · omega
    · have := before p hp
      omega
  rw [included_congr same, included_cons shorter, included_cons before]

end

/-- The verdict is the right one unless the name ends with a dot and only what is before that dot
is named, and decides otherwise than the shorter parts. -/
theorem queueMatches_follows_iff (queue : String) (onlyQueues excludeQueues : Finset String) :
    FollowsMostSpecific queue onlyQueues excludeQueues ↔
      ∀ name, queue = name ++ "." → queue ∉ onlyQueues ∪ excludeQueues →
        name ∈ onlyQueues ∪ excludeQueues →
        (name ∉ excludeQueues ↔
          Included onlyQueues excludeQueues (partsBeforeDots name)) := by
  rw [followsMostSpecific_iff]
  by_cases hdot : ∃ name, queue = name ++ "."
  · obtain ⟨name, rfl⟩ := hdot
    rw [queueMatches_append_dot, included_append_dot]
    constructor
    · intro h name' heq hout hin
      obtain rfl : name = name' := by
        have := congrArg String.toList heq
        exact String.toList_inj.mp (by simpa using this)
      rw [if_neg hout, if_neg hout, if_pos hin] at h
      exact h.symm
    · intro h
      split_ifs with hqueue hname
      · rfl
      · exact (h name rfl hqueue hname).symm
      · rfl
  · have no_dot : ∀ name, queue ≠ name ++ "." := fun name h => hdot ⟨name, h⟩
    constructor
    · intro _ name h
      exact absurd h (no_dot name)
    · intro _
      exact queueMatches_of_no_dot no_dot

/-- A worker for the queue "a" leaves out the subqueue "a.". -/
theorem not_queueMatches_follows : ¬∀ (queue : String) (onlyQueues excludeQueues : Finset String),
    FollowsMostSpecific queue onlyQueues excludeQueues := by
  intro hall
  have governs : Governs ({"a"} ∪ ∅) (dottedParts "a.") "a" := by
    refine ⟨by decide, by decide, ?_⟩
    decide
  have left_out : ¬(queueMatches "a." {"a"} ∅ = true ↔ "a" ∉ (∅ : Finset String)) := by decide
  exact left_out ((hall "a." {"a"} ∅).governed "a" governs)

end TaskTiger
