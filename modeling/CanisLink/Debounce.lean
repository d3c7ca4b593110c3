import CanisLink.Presence
import CanisLink.Runs
/-!
# Debounce — the presence flag as a function of the samples

The filter keeps one raw flag and one instant.  They stand for the last run of samples with equal raw value and its
first sample (`Follows`), so `present` is the raw value of the last run that was held for its window: a short run is
as if it had not been.  The timestamps are arbitrary; a step back holds a run for no time.
-/
namespace CanisLink

open Runs (runs lastOk)

/-- The raw value of a sample. -/
def PresenceConfig.raw (cfg : PresenceConfig) (s : SenseSample) : Bool := ({ cfg } : PresenceFilter).rawPresent s

/-- How long a raw value has to be held. -/
def PresenceConfig.windowMs (cfg : PresenceConfig) (raw : Bool) : UInt64 := if raw then cfg.enterMs else cfg.exitMs

/-- Some sample of the run is as long after its first as the window. -/
def PresenceConfig.confirmed (cfg : PresenceConfig) : List SenseSample → Bool
  | [] => false
  | first :: rest =>
    (first :: rest).any (fun s => decide (saturatingSub s.tMs first.tMs ≥ cfg.windowMs (cfg.raw first)))

/-- The raw value of the last confirmed run of the samples, false if there is none. -/
def PresenceConfig.lastConfirmed (cfg : PresenceConfig) (ss : List SenseSample) : Bool :=
  lastOk cfg.raw cfg.confirmed false (runs cfg.raw ss)

namespace PresenceFilter

/-- A new filter after the samples. -/
def fed (cfg : PresenceConfig) (ss : List SenseSample) : PresenceFilter := ss.foldl (fun f s => (f.update s).2) { cfg }

theorem fed_snoc (cfg : PresenceConfig) (ss : List SenseSample) (s : SenseSample) :
    fed cfg (ss ++ [s]) = ((fed cfg ss).update s).2 := by
  unfold fed
  rw [List.foldl_append]
  rfl

/-- When the raw flag got its value, once the sample is in. -/
def sinceAt (f : PresenceFilter) (s : SenseSample) : UInt64 := if f.cfg.raw s = f.raw then f.rawSinceMs else s.tMs

/-- The filter with the sample's raw value, before the window is looked at. -/
def marked (f : PresenceFilter) (s : SenseSample) : PresenceFilter :=
  let raw := f.rawPresent s
  let f := { f with lastTMs := s.tMs, lastForceN := s.forceN, lastTof := s.tofMm, confidence := f.confidenceOf s raw }
  if raw ≠ f.raw then { f with raw := raw, rawSinceMs := s.tMs } else f

/-- The filter once its raw flag has been held that long. -/
def settled (f : PresenceFilter) (held : UInt64) : PresenceFilter :=
  if !f.present && f.raw && decide (held ≥ f.cfg.enterMs) then { f with present := true }
  else if f.present && !f.raw && decide (held ≥ f.cfg.exitMs) then { f with present := false }
  else f

theorem update_snd (f : PresenceFilter) (s : SenseSample) :
    (f.update s).2 = (f.marked s).settled (saturatingSub s.tMs (f.marked s).rawSinceMs) := by
  unfold update marked settled
  rfl

theorem marked_eq (f : PresenceFilter) (s : SenseSample) :
    (f.marked s).cfg = f.cfg ∧ (f.marked s).raw = f.cfg.raw s ∧ (f.marked s).rawSinceMs = f.sinceAt s ∧
      (f.marked s).present = f.present := by
  have hraw : f.rawPresent s = f.cfg.raw s := rfl
  unfold marked sinceAt
  rw [hraw]
  by_cases h : f.cfg.raw s = f.raw
  · rw [if_neg (not_not_intro h), if_pos h]
    exact ⟨rfl, h.symm, rfl, rfl⟩
  · rw [if_pos h, if_neg h]
    exact ⟨rfl, rfl, rfl, rfl⟩

section

variable (f : PresenceFilter) (held : UInt64)

@[simp] theorem settled_cfg : (f.settled held).cfg = f.cfg := by unfold settled; split <;> [rfl; split <;> rfl]

@[simp] theorem settled_raw : (f.settled held).raw = f.raw := by unfold settled; split <;> [rfl; split <;> rfl]

@[simp] theorem settled_rawSinceMs : (f.settled held).rawSinceMs = f.rawSinceMs := by
  unfold settled
  split <;> [rfl; split <;> rfl]

/-- Held for its window, the raw value is the debounced one. -/
theorem settled_present :
    (f.settled held).present = if held ≥ f.cfg.windowMs f.raw then f.raw else f.present := by
  unfold settled PresenceConfig.windowMs
  cases hr : f.raw <;> cases hp : f.present <;> simp only [Bool.not_true, Bool.not_false, Bool.true_and,
    Bool.false_and, Bool.and_true, Bool.and_false, Bool.false_eq_true, if_true, if_false, decide_eq_true_eq]
  · split <;> exact hp
  · split
    · rfl
    · exact hp
  · split
    · rfl
    · exact hp
  · split <;> exact hp

end

/-- What a sample does to the raw flag, to its start and to `present`. -/
theorem update_eq (f : PresenceFilter) (s : SenseSample) :
    (f.update s).2.cfg = f.cfg ∧ (f.update s).2.raw = f.cfg.raw s ∧ (f.update s).2.rawSinceMs = f.sinceAt s ∧
      (f.update s).2.present =
        if saturatingSub s.tMs (f.sinceAt s) ≥ f.cfg.windowMs (f.cfg.raw s) then f.cfg.raw s else f.present := by
  obtain ⟨hcfg, hraw, hsince, hpresent⟩ := f.marked_eq s
  rw [update_snd, settled_cfg, settled_raw, settled_rawSinceMs, settled_present, hcfg, hraw, hsince, hpresent]
  exact ⟨rfl, rfl, rfl, rfl⟩

theorem update_flipped (f : PresenceFilter) (s : SenseSample) :
    (f.update s).1 = true ↔ (f.update s).2.present ≠ f.present := by
  have hfst : (f.update s).1 = decide ((f.marked s).present ≠ (f.update s).2.present) := rfl
  rw [hfst, (f.marked_eq s).2.2.2, decide_eq_true_iff]
  exact ne_comm

/-- The filter stands at the end of the samples: its raw flag and start are those of the last run, unless that run is
the first, nobody was there and nobody is. -/
inductive Follows (cfg : PresenceConfig) : List (List SenseSample) → PresenceFilter → Prop
  | new {f} (hcfg : f.cfg = cfg) (hraw : f.raw = false) (hpresent : f.present = false) : Follows cfg [] f
  | on {f gs first rest} (hcfg : f.cfg = cfg) (hraw : f.raw = cfg.raw first)
      (hpresent : f.present = lastOk cfg.raw cfg.confirmed false (gs ++ [first :: rest]))
      (hsince : f.rawSinceMs = first.tMs ∨ f.raw = false ∧ f.present = false) :
      Follows cfg (gs ++ [first :: rest]) f

theorem confirmed_snoc (cfg : PresenceConfig) (first : SenseSample) (rest : List SenseSample) (s : SenseSample) :
    cfg.confirmed (first :: (rest ++ [s])) = (cfg.confirmed (first :: rest) ||
      decide (saturatingSub s.tMs first.tMs ≥ cfg.windowMs (cfg.raw first))) := by
  unfold PresenceConfig.confirmed
  dsimp only
  rw [← List.cons_append, List.any_append]
  exact congrArg _ (Bool.or_false _)

theorem confirmed_singleton (cfg : PresenceConfig) (s : SenseSample) :
    cfg.confirmed [s] = decide (saturatingSub s.tMs s.tMs ≥ cfg.windowMs (cfg.raw s)) := Bool.or_false _

/-- A sample that starts a run: only a window of zero is over at once. -/
theorem Follows.start {cfg : PresenceConfig} {f : PresenceFilter} {gs : List (List SenseSample)} {s : SenseSample}
    (hcfg : f.cfg = cfg) (hpresent : f.present = lastOk cfg.raw cfg.confirmed false gs)
    (hsince : f.sinceAt s = s.tMs ∨ cfg.raw s = false ∧ f.present = false) :
    Follows cfg (gs ++ [[s]]) (f.update s).2 := by
  obtain ⟨hcfg', hraw', hsince', hpresent'⟩ := f.update_eq s
  rw [hcfg] at hcfg' hraw' hpresent'
  refine .on hcfg' hraw' ?_ ?_
  · rw [Runs.lastOk_snoc, confirmed_singleton, hpresent', ← hpresent]
    rcases hsince with hs | ⟨hr, hp⟩
    · rw [hs]
      simp only [decide_eq_true_eq]
    · rw [hr, hp]
      split <;> split <;> rfl
  · rw [hsince', hraw', hpresent']
    rcases hsince with hs | ⟨hr, hp⟩
    · exact .inl hs
    · rw [hr, hp]
      exact .inr ⟨rfl, ite_self _⟩

/-- A sample that joins the last run: the run is confirmed from now on if it is as long as its window. -/
theorem Follows.join {cfg : PresenceConfig} {f : PresenceFilter} {gs : List (List SenseSample)} {first s : SenseSample}
    {rest : List SenseSample} (hcfg : f.cfg = cfg) (hraw : f.raw = cfg.raw first)
    (hpresent : f.present = lastOk cfg.raw cfg.confirmed false (gs ++ [first :: rest]))
    (hsince : f.rawSinceMs = first.tMs ∨ f.raw = false ∧ f.present = false) (hs : cfg.raw first = cfg.raw s) :
    Follows cfg (gs ++ [first :: (rest ++ [s])]) (f.update s).2 := by
  obtain ⟨hcfg', hraw', hsince', hpresent'⟩ := f.update_eq s
  have hat : f.sinceAt s = f.rawSinceMs := if_pos (by rw [hcfg, hraw, hs])
  rw [hcfg] at hcfg' hraw' hpresent'
  rw [hat] at hsince' hpresent'
  rw [Runs.lastOk_snoc] at hpresent
  refine .on hcfg' (hraw'.trans hs.symm) ?_ ?_
  · rw [Runs.lastOk_snoc, confirmed_snoc, hpresent', ← hs]
    rcases hsince with hf | ⟨hr, hp⟩
    · rw [hf, hpresent]
      simp only [Bool.or_eq_true, decide_eq_true_eq]
      split <;> split <;> simp_all
    · rw [← hraw, hr] at hpresent ⊢
      rw [hp] at hpresent ⊢
      rw [ite_self]
      cases hc : cfg.confirmed (first :: rest) with
      | true => rfl
      | false =>
        rw [hc, if_neg Bool.false_ne_true] at hpresent
        rw [← hpresent, ite_self]
  · rw [hsince', hraw', hpresent', ← hs, ← hraw]
    rcases hsince with hf | ⟨hr, hp⟩
    · exact .inl hf
    · rw [hr, hp]
      exact .inr ⟨rfl, ite_self _⟩

/-- **One sample**: the filter follows the runs of the samples. -/
theorem Follows.step {cfg : PresenceConfig} {ss : List SenseSample} {f : PresenceFilter}
    (h : Follows cfg (runs cfg.raw ss) f) (s : SenseSample) :
    Follows cfg (runs cfg.raw (ss ++ [s])) (f.update s).2 := by
  generalize hgs : runs cfg.raw ss = gs at h
  cases h with
  | new hcfg hraw hpresent =>
    rw [List.splitBy_eq_nil.1 hgs]
    refine @Follows.start cfg f [] s hcfg hpresent ?_
    unfold sinceAt
    rw [hcfg, hraw]
    by_cases hs : cfg.raw s = false
    · exact .inr ⟨hs, hpresent⟩
    · exact .inl (if_neg hs)
  | @on _ gs first rest hcfg hraw hpresent hsince =>
    by_cases hs : cfg.raw first = cfg.raw s
    · rw [Runs.runs_snoc_same hgs hs]
      exact Follows.join hcfg hraw hpresent hsince hs
    · rw [Runs.runs_snoc_new hgs hs]
      refine Follows.start hcfg hpresent (.inl (if_neg ?_))
      rw [hcfg, hraw]
      exact Ne.symm hs

theorem fed_follows (cfg : PresenceConfig) (ss : List SenseSample) : Follows cfg (runs cfg.raw ss) (fed cfg ss) := by
  induction ss using List.reverseRecOn with
  | nil => exact .new rfl rfl rfl
  | append_singleton ss s ih =>
    rw [fed_snoc]
    exact ih.step s

/-- **The debounced flag is the raw value of the last run that was held long enough**, and `update` reports exactly its
changes. -/
theorem present_eq_lastConfirmed (cfg : PresenceConfig) (ss : List SenseSample) :
    (fed cfg ss).present = cfg.lastConfirmed ss ∧
      ∀ s, ((fed cfg ss).update s).1 = true ↔ (fed cfg (ss ++ [s])).present ≠ (fed cfg ss).present := by
  have hfollows := fed_follows cfg ss
  refine ⟨?_, fun s => ?_⟩
  · unfold PresenceConfig.lastConfirmed
    generalize runs cfg.raw ss = gs at hfollows
    cases hfollows with
    | new _ _ hpresent => exact hpresent
    | on _ _ hpresent _ => exact hpresent
  · rw [fed_snoc]
    exact update_flipped _ s

end PresenceFilter
end CanisLink
