import Mathlib

namespace Redis

/-- The characters between [ and ], as ranges; [^ negates. -/
structure GlobClass where
  negated : Bool
  ranges : List (Char × Char)

namespace GlobClass

def add (k : GlobClass) (a b : Char) : GlobClass := { k with ranges := (a, b) :: k.ranges }

def accepts (k : GlobClass) (c : Char) : Bool :=
  xor k.negated (k.ranges.any (fun r => min r.1 r.2 ≤ c && c ≤ max r.1 r.2))

end GlobClass

inductive GlobToken where
  | star
  | one (c : Char)
  | any
  | cls (k : GlobClass)

/-- Reads a glob-style pattern; the first argument is the class that is open. A class that is not
closed ends with the pattern. -/
def parseGlob : Option GlobClass → List Char → List GlobToken
  | none, [] => []
  | none, '*' :: p => .star :: parseGlob none p
  | none, '?' :: p => .any :: parseGlob none p
  | none, '[' :: '^' :: p => parseGlob (some ⟨true, []⟩) p
  | none, '[' :: p => parseGlob (some ⟨false, []⟩) p
  | none, '\\' :: c :: p => .one c :: parseGlob none p
  | none, c :: p => .one c :: parseGlob none p
  | some k, [] => [.cls k]
  | some k, '\\' :: c :: p => parseGlob (some (k.add c c)) p
  | some k, ']' :: p => .cls k :: parseGlob none p
  | some k, a :: '-' :: b :: p => parseGlob (some (k.add a b)) p
  | some k, c :: p => parseGlob (some (k.add c c)) p

def matchTokens : List GlobToken → List Char → Bool
  | [], s => s.isEmpty
  | .star :: p, s => s.tails.any (matchTokens p)
  | .one c :: p, x :: s => c = x && matchTokens p s
  | .any :: p, _ :: s => matchTokens p s
  | .cls k :: p, x :: s => k.accepts x && matchTokens p s
  | _ :: _, [] => false

/-- Whether a string matches a glob-style pattern. -/
def globMatch (pattern s : List Char) : Bool := matchTokens (parseGlob none pattern) s

/-- Puts a backslash before every special character. -/
def globEscape : List Char → List Char
  | [] => []
  | c :: s => if c ∈ ['\\', '?', '*', '[', ']'] then '\\' :: c :: globEscape s else c :: globEscape s

theorem parseGlob_escape (s p : List Char) :
    parseGlob none (globEscape s ++ p) = s.map GlobToken.one ++ parseGlob none p := by
  induction s with
  | nil => rfl
  | cons c s ih =>
    rw [globEscape]
    split_ifs with hc
    · simp only [List.cons_append, parseGlob, ih, List.map_cons]
    · simp only [List.mem_cons, not_or] at hc
      obtain ⟨hbackslash, hquestion, hstar, hopen, -⟩ := hc
      have hread : parseGlob none (c :: (globEscape s ++ p)) =
          .one c :: parseGlob none (globEscape s ++ p) := by
        rw [parseGlob.eq_def]
        split <;> simp_all
      simp only [List.cons_append, List.map_cons, hread, ih]

theorem matchTokens_one_append (a : List Char) (p : List GlobToken) (s : List Char) :
    matchTokens (a.map GlobToken.one ++ p) s = true ↔ ∃ t, s = a ++ t ∧ matchTokens p t = true := by
  induction a generalizing s with
  | nil => simp
  | cons c a ih =>
    cases s with
    | nil => simp [matchTokens]
    | cons x s =>
      simp only [List.map_cons, List.cons_append, matchTokens, Bool.and_eq_true, decide_eq_true_eq,
        ih, List.cons.injEq]
      constructor
      · rintro ⟨rfl, t, rfl, ht⟩
        exact ⟨t, ⟨rfl, rfl⟩, ht⟩
      · rintro ⟨t, ⟨rfl, rfl⟩, ht⟩
        exact ⟨rfl, t, rfl, ht⟩

theorem matchTokens_star_cons (p : List GlobToken) (s : List Char) :
    matchTokens (.star :: p) s = true ↔ ∃ x t, s = x ++ t ∧ matchTokens p t = true := by
  simp only [matchTokens, List.any_eq_true, List.mem_tails]
  constructor
  · intro ⟨t, ⟨x, hx⟩, ht⟩
    exact ⟨x, t, hx.symm, ht⟩
  · intro ⟨x, t, hs, ht⟩
    exact ⟨t, ⟨x, hs.symm⟩, ht⟩

/-- A star between escaped texts matches exactly what starts with the one and ends with the
other, without overlap. -/
theorem globMatch_star_between (a b s : List Char) :
    globMatch (globEscape a ++ '*' :: globEscape b) s = true ↔ ∃ x, s = a ++ (x ++ b) := by
  have tail : parseGlob none ('*' :: globEscape b) = .star :: b.map GlobToken.one := by
    have hb := parseGlob_escape b []
    rw [List.append_nil] at hb
    rw [parseGlob, hb]
    exact congrArg _ (List.append_nil _)
  have ending (t : List Char) : matchTokens (b.map GlobToken.one) t = true ↔ t = b := by
    have hone := matchTokens_one_append b [] t
    rw [List.append_nil] at hone
    rw [hone]
    simp [matchTokens]
  rw [globMatch, parseGlob_escape, tail, matchTokens_one_append]
  constructor
  · intro ⟨t, hs, ht⟩
    obtain ⟨x, t', rfl, ht'⟩ := (matchTokens_star_cons _ _).mp ht
    exact ⟨x, by rw [hs, (ending t').mp ht']⟩
  · intro ⟨x, hs⟩
    exact ⟨x ++ b, hs, (matchTokens_star_cons _ _).mpr ⟨x, b, rfl, (ending b).mpr rfl⟩⟩

/-- An escaped text followed by a star matches exactly what starts with the text. -/
theorem globMatch_escape_star (name s : List Char) :
    globMatch (globEscape name ++ ['*']) s = true ↔ name <+: s := by
  have h := globMatch_star_between name [] s
  simp only [List.append_nil] at h
  rw [show ['*'] = '*' :: globEscape [] from rfl, h]
  constructor
  · intro ⟨x, hs⟩
    exact ⟨x, hs.symm⟩
  · intro ⟨x, hs⟩
    exact ⟨x, hs.symm⟩

end Redis
