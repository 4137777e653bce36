import LeanCtx.Python.Unicode

/-! Regular expressions over text: whether a pattern occurs in a string. A position keeps the character before
    it, for the assertions that look back. Which match a search prefers does not matter here, so a pattern
    denotes the set of positions where a match from a given one may end. -/

namespace LeanCtx

/-- A pattern. -/
inductive Regex
  | one (p : Nat → Bool)
  | empty
  | seq (r s : Regex)
  | alt (r s : Regex)
  | star (r : Regex)
  | prev (p : Option Nat → Bool)
  | boundary

namespace Regex

/-- A position in a string: the character before it, none at the start, and the text after it. -/
abbrev Pos := Option Nat × Str

/-- `\w` on either side of a position. -/
def atBoundary (p : Pos) : Bool := p.1.any Unicode.isWord != p.2.head?.any Unicode.isWord

/-- The positions where repetitions end. Each repetition but the last one moves on, so the fuel is the length of
    the text. -/
def starEnds (f : Pos → List Pos) : Nat → Pos → List Pos
  | 0, p => [p]
  | n + 1, p => p :: ((f p).filter fun q => q.2.length < p.2.length).flatMap (starEnds f n)

/-- The positions where a match from a position may end. -/
def ends : Regex → Pos → List Pos
  | one c, p => match p.2 with
    | [] => []
    | d :: t => if c d then [(some d, t)] else []
  | empty, p => [p]
  | seq r s, p => (r.ends p).flatMap s.ends
  | alt r s, p => r.ends p ++ s.ends p
  | star r, p => starEnds r.ends p.2.length p
  | prev c, p => if c p.1 then [p] else []
  | boundary, p => if atBoundary p then [p] else []

/-- The positions of a string. -/
def positions : Option Nat → Str → List Pos
  | c, [] => [(c, [])]
  | c, d :: t => (c, d :: t) :: positions (some d) t

/-- `pattern.search(text)` finds a match. -/
def search (r : Regex) (s : Str) : Bool := (positions none s).any fun p => !(r.ends p).isEmpty

/-! ### Building patterns -/

/-- A literal text. -/
def literal (s : String) : Regex := (Str.lit s).foldr (fun c r => seq (one (· == c)) r) empty

/-- A literal text, without regard to case. The literal is in lower case. -/
def literalFold (s : String) : Regex := (Str.lit s).foldr (fun c r => seq (one fun d => Unicode.fold d == c) r) empty

def plus (r : Regex) : Regex := seq r (star r)

def opt (r : Regex) : Regex := alt r empty

/-- `r{n}`. -/
def times (r : Regex) : Nat → Regex
  | 0 => empty
  | n + 1 => seq r (times r n)

/-! ### What a match contains -/

/-- Every match of the pattern contains a character of `P`. -/
inductive Needs (P : Nat → Prop) : Regex → Prop
  | one {p : Nat → Bool} (h : ∀ c, p c = true → P c) : Needs P (one p)
  | left {r s : Regex} (h : Needs P r) : Needs P (seq r s)
  | right {r s : Regex} (h : Needs P s) : Needs P (seq r s)
  | alt {r s : Regex} (hr : Needs P r) (hs : Needs P s) : Needs P (alt r s)

theorem mem_starEnds {f : Pos → List Pos} (hf : ∀ p q, q ∈ f p → q.2 <:+ p.2) {n : Nat} {p q : Pos}
    (h : q ∈ starEnds f n p) : q.2 <:+ p.2 := by
  induction n generalizing p with
  | zero =>
    rw [starEnds, List.mem_singleton] at h
    rw [h]
  | succ n ih =>
    rw [starEnds, List.mem_cons, List.mem_flatMap] at h
    rcases h with rfl | ⟨m, hm, hq⟩
    · exact List.suffix_refl _
    · exact (ih hq).trans (hf _ _ (List.mem_of_mem_filter hm))

/-- A match ends in the text after its start. -/
theorem ends_suffix (r : Regex) : ∀ p q : Pos, q ∈ r.ends p → q.2 <:+ p.2 := by
  induction r with
  | one c =>
    rintro ⟨_, t⟩ q h
    cases t with
    | nil => cases h
    | cons d t =>
      simp only [ends] at h
      split_ifs at h
      · rw [List.mem_singleton.mp h]
        exact List.suffix_cons d t
      · cases h
  | empty =>
    intro p q h
    rw [List.mem_singleton.mp h]
  | seq r s hr hs =>
    intro p q h
    obtain ⟨m, hm, hq⟩ := List.mem_flatMap.mp h
    exact (hs m q hq).trans (hr p m hm)
  | alt r s hr hs =>
    intro p q h
    rcases List.mem_append.mp h with h | h
    · exact hr p q h
    · exact hs p q h
  | star r hr => exact fun p q h => mem_starEnds hr h
  | prev c =>
    intro p q h
    simp only [ends] at h
    split_ifs at h
    · rw [List.mem_singleton.mp h]
    · cases h
  | boundary =>
    intro p q h
    simp only [ends] at h
    split_ifs at h
    · rw [List.mem_singleton.mp h]
    · cases h

theorem ends_needs {P : Nat → Prop} {r : Regex} (hr : Needs P r) {p q : Pos} (h : q ∈ r.ends p) : ∃ c ∈ p.2, P c := by
  induction hr generalizing p q with
  | one hP =>
    obtain ⟨_, t⟩ := p
    cases t with
    | nil => cases h
    | cons d t =>
      simp only [ends] at h
      split_ifs at h with hd
      · exact ⟨d, by simp, hP d hd⟩
      · cases h
  | left _ ih =>
    obtain ⟨m, hm, -⟩ := List.mem_flatMap.mp h
    exact ih hm
  | right _ ih =>
    obtain ⟨m, hm, hq⟩ := List.mem_flatMap.mp h
    obtain ⟨c, hc, hP⟩ := ih hq
    exact ⟨c, (ends_suffix _ _ _ hm).subset hc, hP⟩
  | alt _ _ ihr ihs =>
    rcases List.mem_append.mp h with h | h
    · exact ihr h
    · exact ihs h

theorem positions_suffix {s : Str} : ∀ {c : Option Nat} {p : Pos}, p ∈ positions c s → p.2 <:+ s := by
  induction s with
  | nil =>
    intro c p h
    rw [List.mem_singleton.mp h]
  | cons d t ih =>
    intro c p h
    rcases List.mem_cons.mp h with rfl | h
    · exact List.suffix_refl _
    · exact (ih h).trans (List.suffix_cons d t)

/-- A pattern does not occur in a text without the characters that its matches contain. -/
theorem search_eq_false {P : Nat → Prop} {r : Regex} (hr : Needs P r) {s : Str} (hs : ∀ c ∈ s, ¬P c) :
    r.search s = false := by
  rw [search, List.any_eq_false]
  intro p hp hne
  cases hends : r.ends p with
  | nil => simp [hends] at hne
  | cons q l =>
    obtain ⟨c, hc, hP⟩ := ends_needs hr (p := p) (q := q) (by simp [hends])
    exact hs c ((positions_suffix hp).subset hc) hP

end Regex
end LeanCtx
