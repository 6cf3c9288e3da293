import Memstashed.Foundation.Loop
import Memstashed.Foundation.Numerals
import Mathlib.Logic.Relation

/-!
# The options of `main`

The loop over `argv` in `smain.cpp`.  The index is an `unsigned short`, each
case of the switch advances it by itself, and a letter that has no case does not
advance it at all.  `main` skips the loop where there are no options; there the
loop would end at once.
-/

namespace Memstashed.Smain

open Memstashed.Foundation

/-! ## The loop -/

structure Options where
  optionIndex : Nat := 1
  gServWorkerThreads : Nat := 100
  gServListPort : Nat := 11211
  deriving DecidableEq, Repr

/-- How the parsing of the command line ends: the server is started, `main`
returns having printed something, or `argv` is read where it has no argument. -/
inductive Parsed where
  | options (gServWorkerThreads gServListPort : Nat)
  | exitFailure (output : Bytes)
  | exitSuccess (output : Bytes)
  | outOfBounds (index : Nat)
  deriving DecidableEq, Repr

def dash : UInt8 := 45

def charAt (arg : Bytes) (k : Nat) : UInt8 := arg.getD k 0

def nextIndex (i : Nat) : Nat := (i + 1) % 65536

def strtol (text : Bytes) : Int :=
  max (-2147483648) (min ((numberAt text).getD 0) 2147483647)

def atoi (text : Bytes) : Nat := (strtol text % 4294967296).toNat

def readArg (argv : List Bytes) (i : Nat) : Except Parsed Bytes :=
  match argv[i]? with
  | some arg => .ok arg
  | none => .error (.outOfBounds i)

def helpText : Bytes :=
  ascii "The options are:\n-t The maximum number of worker threads\n" ++
    ascii "-p The listening port number\n"

/-- The `switch` over the letter of an option.  `-p` reads its value before it
asks whether there is one, and a letter without a case changes nothing. -/
def optionCase (argv : List Bytes) (s : Options) (letter : UInt8) :
    Except Parsed Options :=
  let optionIndex := nextIndex s.optionIndex
  if letter = 116 then
    if argv.length ≤ optionIndex then
      .error (.exitFailure (ascii "Option to -t missing\n"))
    else do
      let value ← readArg argv optionIndex
      if charAt value 0 = dash then
        .error (.exitFailure (ascii "Option to -t missing\n"))
      else
        return { s with
          optionIndex := nextIndex optionIndex
          gServWorkerThreads := atoi value }
  else if letter = 112 then do
    let value ← readArg argv optionIndex
    if argv.length ≤ optionIndex ∨ charAt value 0 = dash then
      .error (.exitFailure (ascii "Option to -p missing\n"))
    else
      return { s with
        optionIndex := nextIndex optionIndex
        gServListPort := atoi value }
  else if letter = 104 then .error (.exitSuccess helpText)
  else return s

def optionTurn (argv : List Bytes) (s : Options) : Except Parsed Options :=
  if s.optionIndex < argv.length then do
    let arg ← readArg argv s.optionIndex
    if charAt arg 0 ≠ dash then
      .error (.exitFailure (ascii "Use memstashed -h for help\n"))
    else optionCase argv s (charAt arg 1)
  else .error (.options s.gServWorkerThreads s.gServListPort)

/-- The loop ends without having read past the end of `argv`, and every turn
that does not leave it advances the index. -/
structure ParsesSafely (argv : List Bytes) : Prop where
  ends : ∃ r, Ends (optionTurn argv) {} r ∧ ∀ i, r ≠ .outOfBounds i
  advances : ∀ s s' : Options,
    Relation.ReflTransGen (fun s s' => optionTurn argv s = .ok s') {} s →
    optionTurn argv s = .ok s' → s.optionIndex < s'.optionIndex

/-! ## Command lines -/

section Arguments

variable (argv : List Bytes) (i : Nat)

def IsOption (c : UInt8) : Prop :=
  ∃ arg, argv[i]? = some arg ∧ charAt arg 0 = dash ∧ charAt arg 1 = c

def IsValue : Prop := ∃ arg, argv[i]? = some arg ∧ charAt arg 0 ≠ dash

def IsDashed : Prop := ∃ arg, argv[i]? = some arg ∧ charAt arg 0 = dash

def IsPair : Prop :=
  (IsOption argv i 116 ∨ IsOption argv i 112) ∧ IsValue argv (nextIndex i)

/-- The loop is left here: at the end of the arguments, at an argument that is
no option, at `-h`, at `-t` without a value, or at `-p` with an option in the
place of its value. -/
def IsEnd : Prop :=
  argv.length ≤ i ∨ IsValue argv i ∨ IsOption argv i 104 ∨
    (IsOption argv i 116 ∧ ¬ IsValue argv (nextIndex i)) ∨
    (IsOption argv i 112 ∧ IsDashed argv (nextIndex i))

end Arguments

/-- The arguments are options with their values, up to one at which the loop is
left before the index has wrapped around. -/
def GoodLine (argv : List Bytes) : Prop :=
  ∃ m, 2 * m + 1 < 65536 ∧ (∀ k < m, IsPair argv (2 * k + 1)) ∧
    IsEnd argv (2 * m + 1)

section Turn

variable {argv : List Bytes} {s : Options} {i : Nat} {arg : Bytes}

theorem readArg_of_some (harg : argv[i]? = some arg) :
    readArg argv i = .ok arg := by
  simp only [readArg, harg]

theorem optionTurn_of_value (hvalue : IsValue argv s.optionIndex) :
    optionTurn argv s =
      .error (.exitFailure (ascii "Use memstashed -h for help\n")) := by
  obtain ⟨arg, harg, hchar⟩ := hvalue
  have hlt := (List.getElem?_eq_some_iff.mp harg).1
  unfold optionTurn
  rw [if_pos hlt, readArg_of_some harg]
  exact if_pos hchar

theorem optionTurn_of_option {c : UInt8}
    (hoption : IsOption argv s.optionIndex c) :
    optionTurn argv s = optionCase argv s c := by
  obtain ⟨arg, harg, hchar, rfl⟩ := hoption
  have hlt := (List.getElem?_eq_some_iff.mp harg).1
  unfold optionTurn
  rw [if_pos hlt, readArg_of_some harg]
  exact if_neg (not_not.mpr hchar)

theorem optionCase_value {c : UInt8} (hc : c = 116 ∨ c = 112)
    (hvalue : IsValue argv (nextIndex s.optionIndex)) :
    ∃ s', optionCase argv s c = .ok s' ∧
      s'.optionIndex = nextIndex (nextIndex s.optionIndex) := by
  obtain ⟨value, hread, hchar⟩ := hvalue
  have hlt := (List.getElem?_eq_some_iff.mp hread).1
  have hthere := Nat.not_le.mpr hlt
  have hvalue := readArg_of_some hread
  unfold optionCase
  rcases hc with rfl | rfl
  · rw [if_pos rfl, if_neg hthere, hvalue]
    exact ⟨_, if_neg hchar, rfl⟩
  · rw [if_neg (by decide), if_pos rfl, hvalue]
    exact ⟨_, if_neg (by simp [hthere, hchar]), rfl⟩

theorem optionCase_t_missing
    (hmissing : ¬ IsValue argv (nextIndex s.optionIndex)) :
    optionCase argv s 116 =
      .error (.exitFailure (ascii "Option to -t missing\n")) := by
  unfold optionCase
  rw [if_pos rfl]
  split
  · rfl
  · rename_i hlt
    have hread := List.getElem?_eq_getElem (Nat.not_le.mp hlt)
    have hdash : charAt (argv.get ⟨_, Nat.not_le.mp hlt⟩) 0 = dash := by
      by_contra hchar
      exact hmissing ⟨_, hread, hchar⟩
    rw [readArg_of_some hread]
    exact if_pos hdash

theorem optionCase_p_dashed
    (hdashed : IsDashed argv (nextIndex s.optionIndex)) :
    optionCase argv s 112 =
      .error (.exitFailure (ascii "Option to -p missing\n")) := by
  obtain ⟨value, hread, hdash⟩ := hdashed
  unfold optionCase
  rw [if_neg (by decide), if_pos rfl, readArg_of_some hread]
  exact if_pos (.inr hdash)

theorem optionCase_p_missing
    (hmissing : argv.length ≤ nextIndex s.optionIndex) :
    optionCase argv s 112 =
      .error (.outOfBounds (nextIndex s.optionIndex)) := by
  have hread : readArg argv (nextIndex s.optionIndex) =
      .error (.outOfBounds (nextIndex s.optionIndex)) := by
    simp only [readArg, List.getElem?_eq_none hmissing]
  unfold optionCase
  rw [if_neg (by decide), if_pos rfl, hread]
  rfl

theorem optionCase_other {c : UInt8} (ht : c ≠ 116) (hp : c ≠ 112)
    (hh : c ≠ 104) : optionCase argv s c = .ok s := by
  unfold optionCase
  rw [if_neg ht, if_neg hp, if_neg hh]
  rfl

/-! ## The kinds of turns -/

theorem optionTurn_pair (hpair : IsPair argv s.optionIndex) :
    ∃ s', optionTurn argv s = .ok s' ∧
      s'.optionIndex = nextIndex (nextIndex s.optionIndex) := by
  obtain ⟨hoption, hvalue⟩ := hpair
  rcases hoption with hoption | hoption
  · rw [optionTurn_of_option hoption]
    exact optionCase_value (.inl rfl) hvalue
  · rw [optionTurn_of_option hoption]
    exact optionCase_value (.inr rfl) hvalue

theorem optionTurn_end (hend : IsEnd argv s.optionIndex) :
    ∃ r, optionTurn argv s = .error r ∧ ∀ i, r ≠ .outOfBounds i := by
  rcases hend with hout | hvalue | hoption | ⟨hoption, hmissing⟩ |
    ⟨hoption, hdashed⟩
  · exact ⟨_, if_neg (Nat.not_lt.mpr hout), by simp⟩
  · exact ⟨_, optionTurn_of_value hvalue, by simp⟩
  · exact ⟨_, optionTurn_of_option hoption, by simp⟩
  · rw [optionTurn_of_option hoption, optionCase_t_missing hmissing]
    exact ⟨_, rfl, by simp⟩
  · rw [optionTurn_of_option hoption, optionCase_p_dashed hdashed]
    exact ⟨_, rfl, by simp⟩

theorem optionTurn_cases (argv : List Bytes) (s : Options) :
    IsEnd argv s.optionIndex ∨ IsPair argv s.optionIndex ∨
      optionTurn argv s = .ok s ∨
        ∃ i, optionTurn argv s = .error (.outOfBounds i) := by
  cases harg : argv[s.optionIndex]? with
  | none => exact .inl (.inl (List.getElem?_eq_none_iff.mp harg))
  | some arg =>
      by_cases hchar : charAt arg 0 = dash
      · have hoption : ∀ c, charAt arg 1 = c →
            IsOption argv s.optionIndex c :=
          fun c hc => ⟨arg, harg, hchar, hc⟩
        by_cases ht : charAt arg 1 = 116
        · by_cases hvalue : IsValue argv (nextIndex s.optionIndex)
          · exact .inr (.inl ⟨.inl (hoption 116 ht), hvalue⟩)
          · exact .inl (.inr (.inr (.inr (.inl ⟨hoption 116 ht, hvalue⟩))))
        · by_cases hp : charAt arg 1 = 112
          · cases hread : argv[nextIndex s.optionIndex]? with
            | none =>
                refine .inr (.inr (.inr ⟨nextIndex s.optionIndex, ?_⟩))
                rw [optionTurn_of_option (hoption 112 hp)]
                exact optionCase_p_missing (List.getElem?_eq_none_iff.mp hread)
            | some value =>
                by_cases hdash : charAt value 0 = dash
                · exact .inl (.inr (.inr (.inr (.inr
                    ⟨hoption 112 hp, value, hread, hdash⟩))))
                · exact .inr (.inl ⟨.inr (hoption 112 hp), value, hread, hdash⟩)
          · by_cases hh : charAt arg 1 = 104
            · exact .inl (.inr (.inr (.inl (hoption 104 hh))))
            · refine .inr (.inr (.inl ?_))
              rw [optionTurn_of_option (hoption _ rfl)]
              exact optionCase_other ht hp hh
      · exact .inl (.inr (.inl ⟨arg, harg, hchar⟩))

end Turn

/-! ## Whole command lines -/

section Lines

variable {argv : List Bytes} {s : Options} {k m : Nat}

theorem nextIndex_pair (hk : 2 * k + 3 < 65536) :
    nextIndex (nextIndex (2 * k + 1)) = 2 * (k + 1) + 1 := by
  simp only [nextIndex]
  omega

theorem nextIndex_last : nextIndex (nextIndex 65535) = 1 := rfl

theorem optionTurn_next (hpair : IsPair argv (2 * k + 1))
    (hindex : s.optionIndex = 2 * k + 1) (hk : 2 * k + 3 < 65536) :
    ∃ s', optionTurn argv s = .ok s' ∧ s'.optionIndex = 2 * (k + 1) + 1 := by
  rw [← hindex] at hpair
  obtain ⟨s', hturn, hnext⟩ := optionTurn_pair hpair
  rw [hindex, nextIndex_pair hk] at hnext
  exact ⟨s', hturn, hnext⟩

theorem ends_from (hm : 2 * m + 1 < 65536)
    (hpairs : ∀ k < m, IsPair argv (2 * k + 1)) (hend : IsEnd argv (2 * m + 1))
    {left : Nat} (hk : k + left = m) (hindex : s.optionIndex = 2 * k + 1) :
    ∃ r, Ends (optionTurn argv) s r ∧ ∀ i, r ≠ .outOfBounds i := by
  induction left generalizing s k with
  | zero =>
      obtain rfl : k = m := hk
      rw [← hindex] at hend
      obtain ⟨r, hturn, hr⟩ := optionTurn_end hend
      exact ⟨r, .leave hturn, hr⟩
  | succ left ih =>
      have hlt : k < m := by omega
      obtain ⟨s', hturn, hnext⟩ :=
        optionTurn_next (hpairs k hlt) hindex (by omega)
      obtain ⟨r, hends, hr⟩ := ih (by omega) hnext
      exact ⟨r, .again hturn hends, hr⟩

theorem optionTurn_at (hm : 2 * m + 1 < 65536)
    (hpairs : ∀ k < m, IsPair argv (2 * k + 1)) (hend : IsEnd argv (2 * m + 1))
    (hk : k ≤ m) (hindex : s.optionIndex = 2 * k + 1) {s' : Options}
    (hturn : optionTurn argv s = .ok s') :
    k < m ∧ s'.optionIndex = 2 * (k + 1) + 1 := by
  rcases Nat.lt_or_eq_of_le hk with hlt | rfl
  · obtain ⟨next, hnext, hmoved⟩ :=
      optionTurn_next (hpairs k hlt) hindex (by omega)
    rw [hturn] at hnext
    cases hnext
    exact ⟨hlt, hmoved⟩
  · rw [← hindex] at hend
    obtain ⟨r, hleft, -⟩ := optionTurn_end hend
    rw [hturn] at hleft
    cases hleft

theorem GoodLine.parsesSafely (hgood : GoodLine argv) : ParsesSafely argv := by
  obtain ⟨m, hm, hpairs, hend⟩ := hgood
  have hreach : ∀ s : Options,
      Relation.ReflTransGen (fun s s' => optionTurn argv s = .ok s') {} s →
      ∃ k ≤ m, s.optionIndex = 2 * k + 1 := by
    intro s hs
    induction hs with
    | refl => exact ⟨0, Nat.zero_le m, rfl⟩
    | tail _ hturn ih =>
        obtain ⟨k, hk, hindex⟩ := ih
        obtain ⟨hlt, hnext⟩ := optionTurn_at hm hpairs hend hk hindex hturn
        exact ⟨k + 1, hlt, hnext⟩
  constructor
  · exact ends_from hm hpairs hend (Nat.zero_add m) rfl
  · intro s s' hs hturn
    obtain ⟨k, hk, hindex⟩ := hreach s hs
    obtain ⟨-, hnext⟩ := optionTurn_at hm hpairs hend hk hindex hturn
    omega

theorem not_ends_of_pairs (hpairs : ∀ k < 32768, IsPair argv (2 * k + 1))
    {r : Parsed} (hends : Ends (optionTurn argv) s r) (hk : k < 32768)
    (hindex : s.optionIndex = 2 * k + 1) : False := by
  induction hends generalizing k with
  | leave hleft =>
      obtain ⟨s', hturn, -⟩ := optionTurn_pair (hindex ▸ hpairs k hk)
      rw [hleft] at hturn
      cases hturn
  | again hturn _ ih =>
      obtain ⟨s', hnext, hmoved⟩ := optionTurn_pair (hindex ▸ hpairs k hk)
      rw [hturn] at hnext
      cases hnext
      by_cases hlast : 2 * k + 3 < 65536
      · rw [hindex, nextIndex_pair hlast] at hmoved
        exact ih (by omega) hmoved
      · obtain rfl : k = 32767 := by omega
        rw [hindex, nextIndex_last] at hmoved
        exact ih (k := 0) (by omega) hmoved

theorem goodLine_of_ends {r : Parsed} (hends : Ends (optionTurn argv) s r)
    (hr : ∀ i, r ≠ .outOfBounds i) (hm : 2 * m + 1 < 65536)
    (hpairs : ∀ k < m, IsPair argv (2 * k + 1))
    (hindex : s.optionIndex = 2 * m + 1) : GoodLine argv := by
  induction hends generalizing m with
  | leave hleft =>
      rename_i s r
      rcases optionTurn_cases argv s with hend | hpair | hstays | ⟨i, hout⟩
      · exact ⟨m, hm, hpairs, hindex ▸ hend⟩
      · obtain ⟨s', hturn, -⟩ := optionTurn_pair hpair
        rw [hleft] at hturn
        cases hturn
      · rw [hleft] at hstays
        cases hstays
      · rw [hleft] at hout
        exact absurd (Except.error.inj hout) (hr i)
  | again hturn hrest ih =>
      rename_i s s' r
      rcases optionTurn_cases argv s with hend | hpair | hstays | ⟨i, hout⟩
      · exact ⟨m, hm, hpairs, hindex ▸ hend⟩
      · obtain ⟨next, hnext, hmoved⟩ := optionTurn_pair hpair
        rw [hturn] at hnext
        cases hnext
        rw [hindex] at hpair hmoved
        have hpairs' : ∀ k < m + 1, IsPair argv (2 * k + 1) := by
          intro k hk
          rcases Nat.lt_succ_iff_lt_or_eq.mp hk with hlt | rfl
          · exact hpairs k hlt
          · exact hpair
        by_cases hlast : 2 * m + 3 < 65536
        · rw [nextIndex_pair hlast] at hmoved
          exact ih hr (by omega) hpairs' hmoved
        · obtain rfl : m = 32767 := by omega
          rw [nextIndex_last] at hmoved
          exact absurd hmoved
            (not_ends_of_pairs hpairs' hrest (k := 0) (by omega))
      · rw [hturn] at hstays
        cases hstays
        exact ih hr hm hpairs hindex
      · rw [hturn] at hout
        cases hout

end Lines

/-- The parsing of the command line ends, within the bounds of `argv` and with
progress in every turn, for the good command lines and no others. -/
theorem parsesSafely_iff (argv : List Bytes) :
    ParsesSafely argv ↔ GoodLine argv := by
  constructor
  · intro hsafe
    obtain ⟨r, hends, hr⟩ := hsafe.ends
    exact goodLine_of_ends (m := 0) hends hr (by decide) (by simp) rfl
  · exact GoodLine.parsesSafely

/-- `memstashed -p` makes the loop read behind its last argument. -/
theorem not_parsesSafely_p :
    ¬ ParsesSafely [ascii "memstashed", ascii "-p"] := by
  intro hsafe
  obtain ⟨r, hends, hr⟩ := hsafe.ends
  have hturn : optionTurn [ascii "memstashed", ascii "-p"] {} =
      .error (.outOfBounds 2) := by rfl
  exact hr 2 (hends.unique (.leave hturn))

end Memstashed.Smain
