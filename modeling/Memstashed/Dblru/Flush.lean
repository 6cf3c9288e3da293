import Memstashed.Dblru.Frame

/-!
# Flushing

A flush removes nothing: it draws a timestamp, and entries with an older one
count as dead from then on.  As long as the counter does not wrap, timestamps
are drawn in order and this separates the entries before the flush from those
after it.
-/

namespace Memstashed.Dblru

open Memstashed.Foundation

/-! ## Timestamps are drawn in order -/

/-- Every timestamp in use has been drawn. -/
structure Stamped (s : Store) : Prop where
  flushed : s.gFlushAllTimestamp ≤ s.gTimestamp
  entries : ∀ key it, s.entry key = some it → it.2 < s.gTimestamp

theorem stamped_init : Stamped Store.init := by
  refine ⟨le_rfl, ?_⟩
  intro key it hentry
  simp [Store.entry, Store.init] at hentry

section Steps

variable {env : Env} {s s' : Store} {op : Op} {r : RetStatus}
  {key : KeyType}

theorem handleFlush_cases (now : Nat) (s : Store) :
    (s.gIsFlushAllSet = true ∧ s.gFlushAllTime ≤ now ∧
      handleFlush now s =
        { s with
          gTimestamp := toWord (s.gTimestamp + 1)
          gFlushAllTimestamp := toWord (s.gTimestamp + 1)
          gIsFlushAllSet := false }) ∨
      (¬ (s.gIsFlushAllSet = true ∧ s.gFlushAllTime ≤ now) ∧
        handleFlush now s = s) := by
  by_cases hdue : s.gIsFlushAllSet = true ∧ s.gFlushAllTime ≤ now
  · exact .inl ⟨hdue.1, hdue.2, if_pos hdue⟩
  · exact .inr ⟨hdue, if_neg hdue⟩

theorem StoreStep.timestamp (hstep : StoreStep env s op r s')
    (hwrap : s.gTimestamp + 1 < wordSize) :
    s.gTimestamp ≤ s'.gTimestamp ∧ s'.gTimestamp ≤ s.gTimestamp + 1 := by
  cases hflush : op.flushes with
  | false =>
      have htimestamp := (hstep.counts hflush).timestamp
      rw [toWord_of_lt hwrap] at htimestamp
      split at htimestamp
      · omega
      · omega
  | true =>
      cases hstep with
      | setFlushAll now expiry =>
          change s.gTimestamp ≤ s.gTimestamp ∧ s.gTimestamp ≤ s.gTimestamp + 1
          omega
      | handleFlushAll now =>
          rcases handleFlush_cases now s with ⟨-, -, heq⟩ | ⟨-, heq⟩
          · rw [heq]
            simp only [toWord_of_lt hwrap]
            omega
          · rw [heq]
            omega
      | _ => contradiction

theorem StoreStep.flushStamp (hstep : StoreStep env s op r s')
    (hwrap : s.gTimestamp + 1 < wordSize) :
    s'.gFlushAllTimestamp = s.gFlushAllTimestamp ∨
      (s'.gFlushAllTimestamp = s.gTimestamp + 1 ∧
        s'.gTimestamp = s.gTimestamp + 1 ∧
        ∀ key, s'.entry key = s.entry key) := by
  cases hflush : op.flushes with
  | false => exact .inl (hstep.counts hflush).flushStamp
  | true =>
      cases hstep with
      | setFlushAll now expiry => exact .inl rfl
      | handleFlushAll now =>
          rcases handleFlush_cases now s with ⟨-, -, heq⟩ | ⟨-, heq⟩
          · rw [heq]
            have hnext := toWord_of_lt hwrap
            exact .inr ⟨hnext, hnext, fun _ => rfl⟩
          · exact .inl (by rw [heq])
      | _ => contradiction

theorem stamped_step (hstep : StoreStep env s op r s') (hs : Stamped s)
    (hwrap : s.gTimestamp + 1 < wordSize) : Stamped s' := by
  have hmono := hstep.timestamp hwrap
  refine ⟨?_, ?_⟩
  · have hflushed := hs.flushed
    rcases hstep.flushStamp hwrap with hsame | ⟨hnew, htimestamp, -⟩
    · omega
    · omega
  · intro key it hentry
    cases hstep.entryStep key with
    | kept hkept =>
        exact (hs.entries key it (hkept ▸ hentry)).trans_le hmono.1
    | dropped hnone => simp [hnone] at hentry
    | read now old hop hfound hlive hread =>
        rw [hread] at hentry
        cases hentry
        have hdrawn := (hstep.counts (by rw [hop]; rfl)).timestamp
        rw [hop, toWord_of_lt hwrap] at hdrawn
        simp only [Op.draws, if_true] at hdrawn
        change s.gTimestamp < s'.gTimestamp
        omega
    | delayed now expiry old hop hlater hfound hdelayed =>
        rw [hdelayed] at hentry
        cases hentry
        exact (hs.entries key old hfound).trans_le hmono.1
    | written w s₁ hwrite hkey hr hwrote =>
        subst hkey
        have hdrawn := hwrote.timestamp
        rw [toWord_of_lt hwrap] at hdrawn
        rw [hwrote.entry] at hentry
        cases hentry
        cases hold : s₁.entry w.key with
        | none =>
            change s.gTimestamp < s'.gTimestamp
            omega
        | some old =>
            rcases hwrote.shrinks w.key with hsame | hnone
            · exact (hs.entries w.key old (hsame ▸ hold)).trans_le hmono.1
            · rw [hnone] at hold
              contradiction

/-! ## Keys that are flushed -/

/-- The key has no entry, or one from before the last flush. -/
def Gone (s : Store) (key : KeyType) : Prop :=
  ∀ it, s.entry key = some it → it.2 < s.gFlushAllTimestamp

def Op.stores (op : Op) (r : RetStatus) (key : KeyType) : Prop :=
  r = .success ∧ ∃ w, op.write? = some w ∧ w.key = key

theorem gone_of_fired (hs : Stamped s) (hwrap : s.gTimestamp + 1 < wordSize)
    {now : Nat} (hset : s.gIsFlushAllSet = true)
    (hdue : s.gFlushAllTime ≤ now) (key : KeyType) :
    Gone (handleFlush now s) key := by
  intro it hentry
  rw [handleFlush, if_pos ⟨hset, hdue⟩] at hentry ⊢
  change it.2 < toWord (s.gTimestamp + 1)
  rw [toWord_of_lt hwrap]
  exact (hs.entries key it hentry).trans (Nat.lt_succ_self _)

theorem gone_step (hstep : StoreStep env s op r s') (hs : Stamped s)
    (hwrap : s.gTimestamp + 1 < wordSize) (hnot : ¬ op.stores r key)
    (h : Gone s key) : Gone s' key := by
  intro it hentry
  have hmono : s.gFlushAllTimestamp ≤ s'.gFlushAllTimestamp := by
    have hflushed := hs.flushed
    rcases hstep.flushStamp hwrap with hsame | ⟨hnew, -, -⟩
    · omega
    · omega
  cases hstep.entryStep key with
  | kept hkept => exact (h it (hkept ▸ hentry)).trans_le hmono
  | dropped hnone => simp [hnone] at hentry
  | read now old hop hfound hlive hread =>
      exact absurd (.inr (h old hfound)) hlive
  | delayed now expiry old hop hlater hfound hdelayed =>
      rw [hdelayed] at hentry
      cases hentry
      exact (h old hfound).trans_le hmono
  | written w s₁ hwrite hkey hr hwrote =>
      exact absurd ⟨hr, w, hwrite, hkey⟩ hnot

theorem getStep_of_gone (h : Gone s key) (now : Nat) :
    (getStep now key s).1 = none := by
  rw [← Option.not_isSome_iff_eq_none, getStep_isSome]
  rintro ⟨it, hentry, hlive⟩
  exact hlive (.inr (h it hentry))

/-! ## Flushes that are waiting -/

def Pending (s : Store) (time : Nat) : Prop :=
  s.gIsFlushAllSet = true ∧ s.gFlushAllTime = time

theorem pending_step (hstep : StoreStep env s op r s') {time : Nat}
    (hflush : op.flushes = false) (h : Pending s time) : Pending s' time := by
  have hcounts := hstep.counts hflush
  exact ⟨hcounts.flushSet.trans h.1, hcounts.flushTime.trans h.2⟩

theorem pending_handleFlush {time now : Nat} (hnow : now < time)
    (h : Pending s time) : handleFlush now s = s := by
  refine if_neg ?_
  rintro ⟨-, hdue⟩
  rw [h.2] at hdue
  exact absurd hdue (not_le.mpr hnow)

def Settled (s : Store) (now : Nat) : Prop :=
  ¬ (s.gIsFlushAllSet = true ∧ s.gFlushAllTime ≤ now)

theorem settled_handleFlush (now : Nat) (s : Store) :
    Settled (handleFlush now s) now := by
  rcases handleFlush_cases now s with ⟨-, -, heq⟩ | ⟨hnot, heq⟩
  · rw [heq]
    simp [Settled]
  · rw [heq]
    exact hnot

theorem settled_step (hstep : StoreStep env s op r s') {now : Nat}
    (hflush : op.flushes = false) (h : Settled s now) : Settled s' now := by
  have hcounts := hstep.counts hflush
  unfold Settled at h ⊢
  rw [hcounts.flushSet, hcounts.flushTime]
  exact h

end Steps

end Memstashed.Dblru
