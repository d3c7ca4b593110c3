import CanisLink.EdgeRuns
/-!
# UartRuns — the sense pipeline and the agent over a run of UART bytes

The pipeline and the agent decode the same bytes, each with its own decoder.  What either makes of a run of pushes is
read off the frames its decoder takes out of the bytes: a snapshot for every sense frame, an intent for every pad
pressed.  Without a sense frame the filter is not consulted.
-/
namespace CanisLink
namespace SensePipeline

/-- A frame that makes a sample. -/
def sensed (fr : Frame) : Bool := decide (fr.msg = .sense) && (SensePayload.fromBytes fr.payload).isSome

theorem pushFrames_decoder : ∀ (frs : List Frame) (p : SensePipeline), (p.pushFrames frs).2.decoder = p.decoder
  | [], _ => rfl
  | fr :: frs, p => by
    unfold pushFrames
    split
    · exact pushFrames_decoder frs p
    · split
      · exact pushFrames_decoder frs p
      · exact pushFrames_decoder frs _

theorem pushFrames_length : ∀ (frs : List Frame) (p : SensePipeline),
    (p.pushFrames frs).1.length = frs.countP sensed
  | [], _ => rfl
  | fr :: frs, p => by
    unfold pushFrames
    split
    · rename_i hmsg
      rw [List.countP_cons_of_neg (by simp [sensed, hmsg])]
      exact pushFrames_length frs p
    · rename_i hmsg
      split
      · rename_i hpayload
        rw [List.countP_cons_of_neg (by simp [sensed, hpayload])]
        exact pushFrames_length frs p
      · rename_i s hpayload
        rw [List.countP_cons_of_pos (by simp [sensed, hpayload, not_not.1 hmsg])]
        exact congrArg (· + 1) (pushFrames_length frs _)

theorem pushFrames_unsensed : ∀ {frs : List Frame}, (∀ fr ∈ frs, fr.msg ≠ .sense) → ∀ p : SensePipeline,
    p.pushFrames frs = ([], p)
  | [], _, _ => rfl
  | fr :: frs, h, p => by
    unfold pushFrames
    rw [if_pos (h fr List.mem_cons_self)]
    exact pushFrames_unsensed (fun fr' hfr => h fr' (List.mem_cons_of_mem fr hfr)) p

theorem pushBytes_eq (p : SensePipeline) (data : List UInt8) (dtMs : UInt64) : p.pushBytes data dtMs =
    { p with tMs := saturatingAdd p.tMs dtMs, decoder := (FrameDecoder.push p.decoder data).2 }.pushFrames
      (FrameDecoder.push p.decoder data).1 := rfl

theorem pushBytes_decoder (p : SensePipeline) (data : List UInt8) (dtMs : UInt64) :
    (p.pushBytes data dtMs).2.decoder = (FrameDecoder.push p.decoder data).2 := pushFrames_decoder _ _

/-- The snapshots of several `push_bytes` calls in turn, and the pipeline after them. -/
def pushAll : SensePipeline → List (List UInt8 × UInt64) → List SenseSnapshot × SensePipeline
  | p, [] => ([], p)
  | p, (data, dtMs) :: pushes =>
    ((p.pushBytes data dtMs).1 ++ (pushAll (p.pushBytes data dtMs).2 pushes).1,
      (pushAll (p.pushBytes data dtMs).2 pushes).2)

/-- The frames the pipeline decodes. -/
def decoded (p : SensePipeline) (pushes : List (List UInt8 × UInt64)) : List Frame :=
  (FrameDecoder.pushAll p.decoder (pushes.map Prod.fst)).1

theorem decoded_cons (p : SensePipeline) (data : List UInt8) (dtMs : UInt64) (pushes : List (List UInt8 × UInt64)) :
    p.decoded ((data, dtMs) :: pushes) =
      (FrameDecoder.push p.decoder data).1 ++ (p.pushBytes data dtMs).2.decoded pushes := by
  unfold decoded
  rw [pushBytes_decoder]
  rfl

/-- **A snapshot for every sense frame**, however the bytes are pushed. -/
theorem pushAll_length : ∀ (pushes : List (List UInt8 × UInt64)) (p : SensePipeline),
    (p.pushAll pushes).1.length = (p.decoded pushes).countP sensed
  | [], _ => rfl
  | (data, dtMs) :: pushes, p => by
    rw [decoded_cons, List.countP_append, ← pushAll_length pushes, pushAll, List.length_append]
    exact congrArg (· + _) (pushFrames_length _ _)

/-- **Without a sense frame the filter stays as it is**, whatever the clock. -/
theorem pushAll_unsensed : ∀ (pushes : List (List UInt8 × UInt64)) {p : SensePipeline},
    (∀ fr ∈ p.decoded pushes, fr.msg ≠ .sense) → (p.pushAll pushes).2.filter = p.filter
  | [], _, _ => rfl
  | (data, dtMs) :: pushes, p, h => by
    rw [decoded_cons] at h
    have hfilter : (p.pushBytes data dtMs).2.filter = p.filter := by
      rw [pushBytes_eq, pushFrames_unsensed (fun fr hfr => h fr (List.mem_append_left _ hfr))]
    rw [pushAll, ← hfilter]
    exact pushAll_unsensed pushes (fun fr hfr => h fr (List.mem_append_right _ hfr))

end SensePipeline

namespace EdgeAgent

theorem ingestUart_eq (a : EdgeAgent) (bytes : List UInt8) (dtMs : UInt64) :
    (a.ingestUart bytes dtMs).1 =
        ((a.sense.pushBytes bytes dtMs).1, (FrameDecoder.push a.decoder bytes).1.filterMap frameIntent) ∧
      (a.ingestUart bytes dtMs).2.sense = (a.sense.pushBytes bytes dtMs).2 ∧
      (a.ingestUart bytes dtMs).2.decoder = (FrameDecoder.push a.decoder bytes).2 := by
  rw [ingestUart_snd]
  simp [ingestUart]

/-- The snapshots and the intents of several `ingest_uart` calls in turn, and the agent after them. -/
def ingestAll : EdgeAgent → List (List UInt8 × UInt64) → (List SenseSnapshot × List Intent) × EdgeAgent
  | a, [] => (([], []), a)
  | a, (bytes, dtMs) :: pushes =>
    let rest := ingestAll (a.ingestUart bytes dtMs).2 pushes
    (((a.ingestUart bytes dtMs).1.1 ++ rest.1.1, (a.ingestUart bytes dtMs).1.2 ++ rest.1.2), rest.2)

/-- **What a run of calls returns**: the snapshots of the pipeline, and the intents of the frames the agent decodes. -/
theorem ingestAll_eq : ∀ (pushes : List (List UInt8 × UInt64)) (a : EdgeAgent), (a.ingestAll pushes).1 =
    ((a.sense.pushAll pushes).1, (FrameDecoder.pushAll a.decoder (pushes.map Prod.fst)).1.filterMap frameIntent)
  | [], _ => rfl
  | (bytes, dtMs) :: pushes, a => by
    obtain ⟨hout, hsense, hdecoder⟩ := a.ingestUart_eq bytes dtMs
    have hframes : (FrameDecoder.pushAll a.decoder (((bytes, dtMs) :: pushes).map Prod.fst)).1 =
        (FrameDecoder.push a.decoder bytes).1 ++
          (FrameDecoder.pushAll (FrameDecoder.push a.decoder bytes).2 (pushes.map Prod.fst)).1 := rfl
    rw [hframes, List.filterMap_append]
    simp only [ingestAll, SensePipeline.pushAll, hout, ingestAll_eq pushes, hsense, hdecoder]

end EdgeAgent
end CanisLink
