import CanisLink.EdgeSteps
/-!
# SensorLost — presence when the sensors have gone silent

The clock of the pipeline goes on with every push, but the filter looks at it only when a sample comes.  Without a sense
frame a dog that was present stays present, for any length of time, and every report says so.
-/
namespace CanisLink

namespace SensePipeline

/-- The pushes bring no sense frame to decode. -/
def Silent (p : SensePipeline) (pushes : List (List UInt8 × UInt64)) : Prop := ∀ fr ∈ p.decoded pushes, fr.msg ≠ .sense

instance (p : SensePipeline) (pushes : List (List UInt8 × UInt64)) : Decidable (p.Silent pushes) :=
  inferInstanceAs (Decidable (∀ fr ∈ _, _))

end SensePipeline

/-- The milliseconds of the pushes. -/
def spanMs (pushes : List (List UInt8 × UInt64)) : Nat := (pushes.map (·.2.toNat)).sum

/-- **Presence always outlives the sensor**: over any pushes without a sense frame, of any span, a dog that was present
is present afterwards; and so says every report of an agent whose pipeline this is, after any run with these pushes. -/
theorem presence_outlives_sensor (p : SensePipeline) (pushes : List (List UInt8 × UInt64))
    (hpresent : p.filter.present = true) (hsilent : p.Silent pushes) :
    (p.pushAll pushes).2.filter.present = true ∧
    ∀ (F : Formats) (a : EdgeAgent) (ops : List (EdgeOp × (Nat → Answers))) (ts : DateTime), a.sense = p →
      (∀ o ∈ ops, o.1.isSample = false) → ops.filterMap (·.1.pushed) = pushes →
      ((a.runOps F ops).nextReport ts).1.present = true := by
  have hafter : (p.pushAll pushes).2.filter.present = true := by
    rw [SensePipeline.pushAll_unsensed pushes hsilent]
    exact hpresent
  refine ⟨hafter, ?_⟩
  rintro F a ops ts rfl hs rfl
  show (a.runOps F ops).sense.filter.present = true
  rw [(a.runOps_sense ops hs).2]
  exact hafter

/-- The cable is cut, and the agent goes on pushing what it reads: nothing, for a minute. -/
theorem presence_outlives_cable :
    ((((EdgeAgent.new terminal1).runOps decimals stepsOn).runOps decimals
      [(.ingestUart [] 60000, fun _ => nothing)]).nextReport noon).1.present = true :=
  (presence_outlives_sensor ((EdgeAgent.new terminal1).runOps decimals stepsOn).sense [([], 60000)] (by decide +kernel)
    (by decide +kernel)).2 decimals _ _ noon rfl (by simp [EdgeOp.isSample]) rfl

/-- **A dog no sensor has seen for a minute is present.** -/
theorem presence_unseen : ¬ ∀ (p : SensePipeline) (pushes : List (List UInt8 × UInt64)), p.filter.present = true →
    p.Silent pushes → p.filter.cfg.exitMs.toNat < spanMs pushes → (p.pushAll pushes).2.filter.present = false := by
  intro h
  have := h (SensePipeline.pushAll {} [(onMat, 50), (onMat, 800)]).2 [([], 60000)] (by decide +kernel)
    (by decide +kernel) (by decide +kernel)
  revert this
  decide +kernel

end CanisLink
