import CanisLink.Debounce
import CanisLink.EdgeLink
import CanisLink.EdgeSteps
/-!
# EdgeMain — the loop of `canis-edge` against device-api

Every 100 ms the loop feeds a tick of the mat emulator to the agent, reports when the debounced flag flips and every two
seconds, and ends at the first report that fails.  From the bytes on the UART to what device-api answers: while the loop
runs, the dog is shown present exactly from the enter window on after it stepped on the mat.
-/
namespace CanisLink

open Interleave (Prog)

/-! ## The loop -/

namespace EdgeAgent

variable (F : Formats)

/-- The snapshots of one `ingest_uart` in turn: `publish_now().await?` for each that flipped, the `n`-th at `ts n`. -/
def publishFlips : (Nat → DateTime) → List SenseSnapshot → EdgeAgent → Edge (Except EdgeError Unit × EdgeAgent)
  | _, [], a => return (.ok (), a)
  | ts, s :: snaps, a => do
    if s.flipped then
      match ← a.publishNow F (ts 0) with
      | (.error e, a) => return (.error e, a)
      | (.ok (), a) => publishFlips (fun n => ts (n + 1)) snaps a
    else publishFlips (fun n => ts (n + 1)) snaps a

/-- The body of the loop in `main`, up to the sleep. -/
def mainRound (stepOnMs elapsed : UInt64) (ts : Nat → DateTime) (a : EdgeAgent) :
    Edge (Except EdgeError Unit × EdgeAgent) := do
  let emu := McuEmu.new
  let emu := if elapsed ≥ stepOnMs then emu.setWorld (.dogOnMat (.finite 120)) else emu
  let ((snaps, _), a) := a.ingestUart emu.tick50ms.1 100
  match ← publishFlips F ts snaps a with
  | (.error e, a) => return (.error e, a)
  | (.ok (), a) =>
    if elapsed % 2000 = 0 then a.publishNow F (ts snaps.length)
    else return (.ok (), a)

end EdgeAgent

/-- What a round of the loop meets: the clock at each of its reports, what device-api handles before each of them and
how it fares, and what is handled during the sleep. -/
structure Round where
  ts : Nat → DateTime
  hops : Nat → List Arrival × Hop
  asleep : List Arrival

/-- A request over the link, after the requests of others. -/
def Hop.execAfter (st : AppState) (h : List Arrival × Hop) (r : Request) (s : Server) : r.Answer × Server :=
  h.2.exec st r (s.serveAll st h.1)

/-- The process and device-api; a process that has returned an error does nothing more. -/
structure EdgeMain where
  elapsed : UInt64 := 0
  agent : EdgeAgent
  server : Server
  error : Option EdgeError := none

namespace EdgeMain

variable (st : AppState) (stepOnMs : UInt64)

def step (m : EdgeMain) (r : Round) : EdgeMain :=
  match m.error with
  | some _ => { m with server := m.server.serveAll st r.asleep }
  | none =>
    match (m.agent.mainRound st.formats stepOnMs m.elapsed r.ts).eval (Hop.execAfter st) r.hops m.server with
    | ((.error e, agent), server) => { m with agent, server := server.serveAll st r.asleep, error := some e }
    | ((.ok (), agent), server) =>
      { m with agent, server := server.serveAll st r.asleep, elapsed := m.elapsed + 100 }

/-- The loop after some rounds, begun by a new agent. -/
def run (cfg : EdgeConfig) (s : Server) (rounds : List Round) : EdgeMain :=
  rounds.foldl (step st stepOnMs) { agent := .new cfg, server := s }

theorem run_snoc (cfg : EdgeConfig) (s : Server) (rounds : List Round) (r : Round) :
    run st stepOnMs cfg s (rounds ++ [r]) = (run st stepOnMs cfg s rounds).step st stepOnMs r := by
  unfold run
  rw [List.foldl_append, List.foldl_cons, List.foldl_nil]

end EdgeMain

/-! ## What the mat senses -/

/-- The bytes of a tick with nobody on the mat. -/
def offMat : List UInt8 := McuEmu.new.tick50ms.1

/-- The bytes of round `k`. -/
def matBytes (stepOnMs : UInt64) (k : Nat) : List UInt8 := if stepOnMs.toNat ≤ 100 * k then onMat else offMat

/-- What a tick writes: a dog of 120 N at 350 mm, or nobody. -/
def matPayload (dog : Bool) : SensePayload :=
  if dog then { forceDeciN := 1200, tofMm := 350, flags := 1, pad := (0, 0, 0) }
  else { forceDeciN := 0, tofMm := 2000, flags := 0, pad := (0, 0, 0) }

/-- The sample the pipeline makes of it. -/
def matSample (dog : Bool) (tMs : UInt64) : SenseSample where
  forceN := (matPayload dog).forceN
  tofMm := some (matPayload dog).tofMm
  motion := (matPayload dog).motion
  tMs := tMs

theorem push_onMat : FrameDecoder.push [] onMat = ([⟨.sense, (matPayload true).toBytes⟩], []) := by decide +kernel

theorem push_offMat : FrameDecoder.push [] offMat = ([⟨.sense, (matPayload false).toBytes⟩], []) := by decide +kernel

theorem raw_matSample (dog : Bool) (tMs : UInt64) : PresenceConfig.raw {} (matSample dog tMs) = dog := by
  have hany : PresenceConfig.raw {} (matSample dog tMs) = PresenceConfig.raw {} (matSample dog 0) := rfl
  rw [hany]
  cases dog <;> decide +kernel

/-- Whether the dog is on the mat in round `k`. -/
def onMatAt (stepOnMs : UInt64) (k : Nat) : Bool := decide (stepOnMs.toNat ≤ 100 * k)

theorem pushBytes_mat {p : SensePipeline} (hp : p.decoder = []) (stepOnMs : UInt64) (k : Nat) :
    let tMs := saturatingAdd p.tMs 100
    let updated := p.filter.update (matSample (onMatAt stepOnMs k) tMs)
    ∃ snap, p.pushBytes (matBytes stepOnMs k) 100 = ([snap], { decoder := [], filter := updated.2, tMs }) ∧
      snap.flipped = updated.1 := by
  have hpush : FrameDecoder.push [] (matBytes stepOnMs k) =
      ([⟨.sense, (matPayload (onMatAt stepOnMs k)).toBytes⟩], []) := by
    unfold matBytes onMatAt
    split
    · rename_i h
      rw [push_onMat, decide_eq_true h]
    · rename_i h
      rw [push_offMat, decide_eq_false h]
  have htof : (if (matPayload (onMatAt stepOnMs k)).tofMm = 0 then none
      else some (matPayload (onMatAt stepOnMs k)).tofMm) = some (matPayload (onMatAt stepOnMs k)).tofMm := by
    cases onMatAt stepOnMs k <;> rfl
  intro tMs updated
  refine ⟨({ filter := updated.2, tMs } : SensePipeline).snapshot updated.1, ?_, rfl⟩
  rw [SensePipeline.pushBytes_eq, hp, hpush]
  unfold SensePipeline.pushFrames
  rw [if_neg (by simp), SensePayload.fromBytes_toBytes]
  dsimp only
  rw [htof]
  rfl

/-- The first round with the dog on the mat. -/
def firstOn (stepOnMs : UInt64) : Nat := (stepOnMs.toNat + 99) / 100

/-- The pipeline after `k` rounds: the raw flag is on since the first round with the dog, and `present` since the round
800 ms after it. -/
structure MatSensed (stepOnMs : UInt64) (k : Nat) (p : SensePipeline) : Prop where
  decoder : p.decoder = []
  clock : p.tMs.toNat = 100 * k
  cfg : p.filter.cfg = {}
  flags : (k ≤ firstOn stepOnMs ∧ p.filter.raw = false ∧ p.filter.present = false) ∨
    (firstOn stepOnMs < k ∧ p.filter.raw = true ∧ p.filter.rawSinceMs.toNat = 100 * (firstOn stepOnMs + 1) ∧
      p.filter.present = decide (firstOn stepOnMs + 9 ≤ k))

theorem MatSensed.new (stepOnMs : UInt64) : MatSensed stepOnMs 0 {} :=
  ⟨rfl, rfl, rfl, .inl ⟨Nat.zero_le _, rfl, rfl⟩⟩

theorem MatSensed.present {stepOnMs : UInt64} {k : Nat} {p : SensePipeline} (h : MatSensed stepOnMs k p) :
    p.filter.present = decide (stepOnMs.toNat + 800 ≤ 100 * (k - 1)) := by
  have hfirst : firstOn stepOnMs = (stepOnMs.toNat + 99) / 100 := rfl
  rcases h.flags with ⟨hk, -, hpresent⟩ | ⟨hk, -, -, hpresent⟩
  · rw [hpresent, eq_comm, decide_eq_false_iff_not]
    omega
  · rw [hpresent, decide_eq_decide]
    omega

/-- **One round of sensing.** -/
theorem MatSensed.step {stepOnMs : UInt64} {k : Nat} {p : SensePipeline} (h : MatSensed stepOnMs k p)
    (hk : 100 * (k + 1) < 2 ^ 64) : ∃ snap p', p.pushBytes (matBytes stepOnMs k) 100 = ([snap], p') ∧
      MatSensed stepOnMs (k + 1) p' ∧ (snap.flipped = true ↔ p'.filter.present ≠ p.filter.present) := by
  obtain ⟨snap, hpush, hflipped⟩ := pushBytes_mat h.decoder stepOnMs k
  have hclock : (saturatingAdd p.tMs 100).toNat = 100 * (k + 1) := by
    have hadd : (p.tMs + 100).toNat = 100 * (k + 1) := by
      rw [UInt64.toNat_add, h.clock]
      show (100 * k + 100) % 2 ^ 64 = _
      omega
    unfold saturatingAdd
    rw [if_pos (by rw [UInt64.le_iff_toNat_le, hadd, h.clock]; omega), hadd]
  refine ⟨snap, _, hpush, ?_, by rw [hflipped]; exact PresenceFilter.update_flipped _ _⟩
  generalize hs : matSample (onMatAt stepOnMs k) (saturatingAdd p.tMs 100) = s
  have ht : s.tMs = saturatingAdd p.tMs 100 := by rw [← hs]; rfl
  have hraw : PresenceConfig.raw {} s = onMatAt stepOnMs k := by rw [← hs]; exact raw_matSample _ _
  obtain ⟨hcfg', hraw', hsince', hpresent'⟩ := p.filter.update_eq s
  rw [h.cfg, hraw] at hraw' hpresent'
  unfold PresenceFilter.sinceAt at hsince' hpresent'
  rw [h.cfg, hraw] at hsince' hpresent'
  refine ⟨rfl, hclock, hcfg'.trans h.cfg, ?_⟩
  have hfirst : firstOn stepOnMs = (stepOnMs.toNat + 99) / 100 := rfl
  have hon : onMatAt stepOnMs k = decide (stepOnMs.toNat ≤ 100 * k) := rfl
  rcases h.flags with ⟨hle, hwas, hpresent⟩ | ⟨hlt, hwas, hsince, hpresent⟩
  · rw [hwas] at hsince' hpresent'
    rw [hpresent] at hpresent'
    by_cases hstep : stepOnMs.toNat ≤ 100 * k
    · -- the dog steps on: held for no time
      rw [hon, decide_eq_true hstep] at hraw' hsince' hpresent'
      rw [if_neg (show ¬ true = false by decide)] at hsince' hpresent'
      refine .inr ⟨by omega, hraw', ?_, ?_⟩
      · rw [hsince', ht, hclock]
        omega
      · have hheld : saturatingSub s.tMs s.tMs = 0 := by
          unfold saturatingSub
          split
          · exact UInt64.sub_self _
          · rfl
        rw [hpresent', hheld, if_neg (by decide), eq_comm, decide_eq_false_iff_not]
        omega
    · rw [hon, decide_eq_false hstep] at hraw' hpresent'
      refine .inl ⟨by omega, hraw', ?_⟩
      rw [hpresent', ite_self]
  · have hstep : stepOnMs.toNat ≤ 100 * k := by omega
    rw [hon, decide_eq_true hstep] at hraw' hsince' hpresent'
    rw [if_pos hwas.symm] at hsince' hpresent'
    refine .inr ⟨by omega, hraw', by rw [hsince', hsince], ?_⟩
    -- how long the dog has been on
    have hheld : (saturatingSub s.tMs p.filter.rawSinceMs).toNat = 100 * (k - firstOn stepOnMs) := by
      have hle : p.filter.rawSinceMs ≤ s.tMs := by
        rw [UInt64.le_iff_toNat_le, ht, hclock, hsince]
        omega
      unfold saturatingSub
      rw [if_pos hle, UInt64.toNat_sub_of_le _ _ hle, ht, hclock, hsince]
      omega
    have hwindow : saturatingSub s.tMs p.filter.rawSinceMs ≥ PresenceConfig.windowMs {} true ↔
        800 ≤ 100 * (k - firstOn stepOnMs) := by
      rw [ge_iff_le, UInt64.le_iff_toNat_le, hheld]
      exact Iff.rfl
    rw [hpresent', if_congr hwindow rfl rfl, hpresent]
    split
    · rw [eq_comm, decide_eq_true_iff]
      omega
    · rw [decide_eq_decide]
      omega

/-! ## What a round reports -/

/-- None of the requests reports the dog. -/
def Unreported (st : AppState) (d : DogId) (as : List Arrival) : Prop := ∀ a ∈ as, ∀ r ∈ reportOf st a, r.dogId ≠ d

theorem serveAll_entry {st : AppState} {d : DogId} : ∀ {as : List Arrival}, Unreported st d as → ∀ s : Server,
    (s.serveAll st as).entry d = s.entry d
  | [], _, _ => rfl
  | a :: as, h, s => by
    rw [Server.serveAll_cons, serveAll_entry (fun b hb => h b (List.mem_cons_of_mem a hb))]
    unfold Server.entry
    rw [serve_presence]
    cases hr : reportOf st a with
    | none => rfl
    | some r =>
      show (s.world.data.presence.upsert r).inner.lookup d = _
      rw [PresenceStore.lookup_upsert, if_neg (Ne.symm (h a List.mem_cons_self r hr))]

/-- `k` reports, all acknowledged: the agent has counted them, and the last of them, if any, is what device-api has. -/
structure Reported (ts : Nat → DateTime) (k : Nat) (a : EdgeAgent) (s : Server) (a' : EdgeAgent) (s' : Server) :
    Prop where
  cfg : a'.cfg = a.cfg
  sense : a'.sense = a.sense
  seq : a'.seq.toNat = a.seq.toNat + k
  entry : (k = 0 ∧ s'.entry a.cfg.dogId = s.entry a.cfg.dogId) ∨
    (0 < k ∧ ∃ n e, s'.entry a.cfg.dogId = some e ∧ e.seq = a'.seq ∧ e.present = a.sense.filter.present ∧
      e.lastSeen = ts n)

section

variable {st : AppState} {a a' : EdgeAgent} {s s' : Server} {ts : Nat → DateTime} {k : Nat}

theorem Reported.refl : Reported ts 0 a s a s := ⟨rfl, rfl, rfl, .inl ⟨rfl, rfl⟩⟩

/-- **One more report**, numbered above what device-api has. -/
theorem Reported.publish (h : Reported ts k a s a' s')
    (hturn : ∀ e, s.entry a.cfg.dogId = some e → e.seq.toNat ≤ a.seq.toNat + 1) (hseq : a.seq.toNat + k + 1 < 2 ^ 64)
    {κ : Nat → List Arrival × Hop} (hquiet : ∀ i, Unreported st a.cfg.dogId (κ i).1) (n : Nat) :
    (a'.publishNow st.formats (ts n)).Yields (Hop.execAfter st) κ s' (fun r s'' =>
      r.1 = .ok () → Reported ts (k + 1) a s r.2 s'') := by
  -- the same request, sent once the others have been handled
  have heval : (a'.publishNow st.formats (ts n)).eval (Hop.execAfter st) κ s' =
      (a'.publishNow st.formats (ts n)).eval (Hop.exec st) (fun _ => (κ 0).2) (s'.serveAll st (κ 0).1) := by
    unfold EdgeAgent.publishNow
    simp only [http, Prog.op_bind, Prog.pure_eq]
    rw [Prog.eval_call, Prog.eval_call]
    show Prog.eval _ _ _ ((κ 0).2.exec st _ (s'.serveAll st (κ 0).1)).2 = _
    unfold Hop.execAfter
    cases ((κ 0).2.exec st _ (s'.serveAll st (κ 0).1)).1 with
    | failed => rfl
    | answered status body =>
      show Prog.eval _ (if _ then _ else _) _ _ = Prog.eval _ (if _ then _ else _) _ _
      split <;> rfl
  intro hok
  have hpublish : (Deployment.publish st ⟨s'.serveAll st (κ 0).1, a'⟩ (ts n) (fun _ => (κ 0).2)).1 = .ok () := by
    rw [heval] at hok
    exact hok
  obtain ⟨arr, harr, hserver⟩ := publish_ok hpublish
  have hafter : ((a'.publishNow st.formats (ts n)).eval (Hop.execAfter st) κ s').2 =
      (s'.serveAll st (κ 0).1).serve st arr := by
    rw [heval]
    exact hserver
  have hagent : ((a'.publishNow st.formats (ts n)).eval (Hop.execAfter st) κ s').1.2 = (a'.nextReport (ts n)).2 :=
    (a'.publishNow_agent (ts n)).eval _ κ s'
  have hnext : (a'.nextReport (ts n)).2.seq.toNat = a.seq.toNat + (k + 1) := by
    show (a'.seq + 1).toNat = _
    rw [UInt64.toNat_add, h.seq]
    show (a.seq.toNat + k + 1) % 2 ^ 64 = _
    omega
  -- the store has no greater number
  have hturn' : ∀ e, s'.entry a.cfg.dogId = some e → e.seq.toNat ≤ a.seq.toNat + (k + 1) := by
    intro e he
    rcases h.entry with ⟨rfl, hsame⟩ | ⟨-, m, e', he', hnum, -⟩
    · exact hturn e (hsame ▸ he)
    · rw [he'] at he
      obtain rfl := Option.some.inj he
      rw [hnum, h.seq]
      omega
  have hreport : (a'.nextReport (ts n)).1.dogId = a.cfg.dogId := congrArg EdgeConfig.dogId h.cfg
  have hentry : ((s'.serveAll st (κ 0).1).serve st arr).entry a.cfg.dogId =
      some (PresenceStore.entryOf (a'.nextReport (ts n)).1) := by
    unfold Server.entry
    rw [serve_presence, harr]
    show ((s'.serveAll st (κ 0).1).world.data.presence.upsert _).inner.lookup _ = _
    rw [PresenceStore.lookup_upsert, if_pos hreport.symm]
    have hbefore := serveAll_entry (hquiet 0) s'
    unfold Server.entry at hbefore hturn'
    rw [hbefore]
    cases he : s'.world.data.presence.inner.lookup a.cfg.dogId with
    | none => rfl
    | some e =>
      have hlt : ¬ (a'.nextReport (ts n)).1.seq < e.seq := by
        rw [UInt64.lt_iff_toNat_lt]
        have hle := hturn' e he
        have hnum : (a'.nextReport (ts n)).1.seq.toNat = a.seq.toNat + (k + 1) := hnext
        omega
      dsimp only
      rw [if_neg hlt]
  rw [hafter, hagent]
  exact ⟨h.cfg, h.sense, hnext, .inr ⟨Nat.succ_pos k, n, _, hentry, rfl, congrArg (·.filter.present) h.sense, rfl⟩⟩

/-- A report that may be due. -/
theorem Reported.publishIf (h : Reported ts k a s a' s')
    (hturn : ∀ e, s.entry a.cfg.dogId = some e → e.seq.toNat ≤ a.seq.toNat + 1) (hseq : a.seq.toNat + k + 1 < 2 ^ 64)
    {κ : Nat → List Arrival × Hop} (hquiet : ∀ i, Unreported st a.cfg.dogId (κ i).1) (n : Nat) (due : Prop)
    [Decidable due] :
    (if due then a'.publishNow st.formats (ts n) else return (.ok (), a') :
      Edge (Except EdgeError Unit × EdgeAgent)).Yields (Hop.execAfter st) κ s' (fun r s'' =>
        r.1 = .ok () → ∃ k', k ≤ k' ∧ k' ≤ k + 1 ∧ (due → k' = k + 1) ∧ Reported ts k' a s r.2 s'') := by
  split
  · refine (h.publish hturn hseq hquiet n).mono (fun r s'' hr hok => ?_)
    exact ⟨k + 1, Nat.le_succ k, Nat.le_refl _, fun _ => rfl, hr hok⟩
  · exact fun _ => ⟨k, Nat.le_refl k, Nat.le_succ k, fun hdue => absurd hdue ‹_›, h⟩

/-- The agent once it has the bytes of round `k`. -/
def EdgeAgent.ticked (a : EdgeAgent) (stepOnMs : UInt64) (k : Nat) : EdgeAgent :=
  (a.ingestUart (matBytes stepOnMs k) 100).2

theorem ticked_kept (a : EdgeAgent) (stepOnMs : UInt64) (k : Nat) :
    (a.ticked stepOnMs k).cfg = a.cfg ∧ (a.ticked stepOnMs k).seq = a.seq := by
  unfold EdgeAgent.ticked
  exact a.ingestUart_kept _ _

theorem MatSensed.ticked {stepOnMs : UInt64} (h : MatSensed stepOnMs k a.sense) (hk : 100 * (k + 1) < 2 ^ 64) :
    MatSensed stepOnMs (k + 1) (a.ticked stepOnMs k).sense := by
  obtain ⟨snap, p', hpush, hp', -⟩ := h.step hk
  have hsense : (a.ticked stepOnMs k).sense = (a.sense.pushBytes (matBytes stepOnMs k) 100).2 :=
    (a.ingestUart_eq (matBytes stepOnMs k) 100).2.1
  rw [hsense, hpush]
  exact hp'

/-- **A round that ends well** has reported the agent as it is after the bytes, at least once if the flag flipped or the
round is a twentieth one. -/
theorem mainRound_yields {stepOnMs elapsed : UInt64} (hsensed : MatSensed stepOnMs k a.sense)
    (hk : 100 * (k + 1) < 2 ^ 64) (helapsed : elapsed.toNat = 100 * k)
    (hturn : ∀ e, s.entry a.cfg.dogId = some e → e.seq.toNat ≤ a.seq.toNat + 1) (hseq : a.seq.toNat + 2 < 2 ^ 64)
    {κ : Nat → List Arrival × Hop} (hquiet : ∀ i, Unreported st a.cfg.dogId (κ i).1) :
    (a.mainRound st.formats stepOnMs elapsed ts).Yields (Hop.execAfter st) κ s (fun r s' => r.1 = .ok () →
      ∃ n, n ≤ 2 ∧ Reported ts n (a.ticked stepOnMs k) s r.2 s' ∧
        (n = 0 → k % 20 ≠ 0 ∧ (a.ticked stepOnMs k).sense.filter.present = a.sense.filter.present)) := by
  obtain ⟨snap, p', hpush, hp', hflipped⟩ := hsensed.step hk
  have hbytes : (if elapsed ≥ stepOnMs then McuEmu.new.setWorld (.dogOnMat (.finite 120)) else McuEmu.new).tick50ms.1 =
      matBytes stepOnMs k := by
    unfold matBytes
    rw [if_congr (show elapsed ≥ stepOnMs ↔ stepOnMs.toNat ≤ 100 * k by
      rw [ge_iff_le, UInt64.le_iff_toNat_le, helapsed]) rfl rfl]
    split <;> rfl
  obtain ⟨hout, hsense, -⟩ := a.ingestUart_eq (matBytes stepOnMs k) 100
  have hsnaps : (a.ingestUart (matBytes stepOnMs k) 100).1.1 = [snap] := by rw [hout, hpush]
  obtain ⟨hcfg, hseq'⟩ := a.ingestUart_kept (matBytes stepOnMs k) 100
  rw [hpush] at hsense
  unfold EdgeAgent.mainRound EdgeAgent.ticked
  dsimp only
  rw [hbytes, hsnaps]
  generalize (a.ingestUart (matBytes stepOnMs k) 100).2 = b at hsense hcfg hseq' ⊢
  rw [← hcfg, ← hseq'] at hturn
  rw [← hcfg] at hquiet
  rw [← hseq'] at hseq
  -- the report of a flip
  have hflips : (EdgeAgent.publishFlips st.formats ts [snap] b).Yields (Hop.execAfter st) κ s (fun r s' =>
      r.1 = .ok () → ∃ n, n ≤ 1 ∧ (snap.flipped = true → n = 1) ∧ Reported ts n b s r.2 s') := by
    unfold EdgeAgent.publishFlips
    split
    · rename_i hflip
      refine Prog.Yields.bind ((Reported.refl.publish hturn (by omega) hquiet 0).mono (fun r s' hr κ' => ?_))
      obtain ⟨r, b'⟩ := r
      cases r with
      | error e => exact fun hok => by cases hok
      | ok u => exact fun _ => ⟨1, Nat.le_refl 1, fun _ => rfl, hr rfl⟩
    · rename_i hflip
      exact fun _ => ⟨0, Nat.zero_le 1, fun h => absurd h hflip, .refl⟩
  refine Prog.Yields.bindLater (Prog.Yields.mono hflips (fun r s' hr m => ?_))
  obtain ⟨r, b'⟩ := r
  cases r with
  | error e => exact fun hok => by cases hok
  | ok u =>
    obtain ⟨n, hn, hflip, hreported⟩ := hr rfl
    refine (hreported.publishIf hturn (by omega) (fun i => hquiet (i + m)) 1 (elapsed % 2000 = 0)).mono
      (fun r s'' hr hok => ?_)
    obtain ⟨n', hle, hle', hdue, hreported'⟩ := hr hok
    refine ⟨n', by omega, hreported', fun hzero => ⟨?_, ?_⟩⟩
    · intro htwentieth
      have hperiod : elapsed % 2000 = 0 := by
        refine UInt64.toNat_inj.1 ?_
        rw [UInt64.toNat_mod, helapsed]
        show 100 * k % 2000 = 0
        omega
      have := hdue hperiod
      omega
    · have hstays : ¬ snap.flipped = true := fun h => by have := hflip h; omega
      rw [hflipped, not_not] at hstays
      rw [hsense, hstays]

end

/-! ## The loop, round by round -/

/-- Nobody else reports the dog during the round. -/
def Round.Quiet (st : AppState) (d : DogId) (r : Round) : Prop :=
  (∀ i, Unreported st d (r.hops i).1) ∧ Unreported st d r.asleep

/-- The loop after some rounds: what the agent senses and has counted, and that device-api has what it reported last, in
one of the last twenty rounds. -/
structure EdgeMain.Running (stepOnMs : UInt64) (cfg : EdgeConfig) (rounds : List Round) (m : EdgeMain) : Prop where
  elapsed : m.elapsed.toNat = 100 * rounds.length
  configured : m.agent.cfg = cfg
  sensed : MatSensed stepOnMs rounds.length m.agent.sense
  seq : m.agent.seq.toNat ≤ 2 * rounds.length
  inTurn : ∀ e, m.server.entry cfg.dogId = some e → e.seq.toNat ≤ m.agent.seq.toNat + 1
  shown : rounds ≠ [] → ∃ i r n e, rounds[i]? = some r ∧ (rounds.length - 1) / 20 * 20 ≤ i ∧
    m.server.entry cfg.dogId = some e ∧ e.seq = m.agent.seq ∧ e.present = m.agent.sense.filter.present ∧
    e.lastSeen = r.ts n

section

variable {st : AppState} {stepOnMs : UInt64} {cfg : EdgeConfig} {m : EdgeMain} {rounds : List Round}

/-- **One round.** -/
theorem EdgeMain.Running.step (h : m.Running stepOnMs cfg rounds) {r : Round} (hquiet : r.Quiet st cfg.dogId)
    (hpace : 100 * (rounds.length + 1) < 2 ^ 64) (hok : (m.step st stepOnMs r).error = none) :
    (m.step st stepOnMs r).Running stepOnMs cfg (rounds ++ [r]) := by
  unfold EdgeMain.step at hok ⊢
  cases herror : m.error with
  | some e =>
    rw [herror] at hok
    cases hok
  | none =>
  rw [herror] at hok
  dsimp only at hok ⊢
  have hdog : m.agent.cfg.dogId = cfg.dogId := congrArg EdgeConfig.dogId h.configured
  have hround := @mainRound_yields st m.agent m.server r.ts rounds.length stepOnMs m.elapsed h.sensed hpace h.elapsed
    (hdog ▸ h.inTurn) (by have := h.seq; omega) r.hops (fun i => hdog ▸ hquiet.1 i)
  unfold Prog.Yields at hround
  generalize (m.agent.mainRound st.formats stepOnMs m.elapsed r.ts).eval (Hop.execAfter st) r.hops m.server = out
    at hround hok ⊢
  obtain ⟨⟨res, agent⟩, server⟩ := out
  cases res with
  | error e => cases hok
  | ok u =>
    obtain ⟨n, hn, hreported, hzero⟩ := hround rfl
    obtain ⟨hcfg, hseq⟩ := ticked_kept m.agent stepOnMs rounds.length
    have hlength : (rounds ++ [r]).length = rounds.length + 1 := List.length_append
    have hasleep : (server.serveAll st r.asleep).entry cfg.dogId = server.entry cfg.dogId :=
      serveAll_entry hquiet.2 server
    have hbound := h.seq
    have hentry := hreported.entry
    rw [hcfg, hdog] at hentry
    refine ⟨?_, hreported.cfg.trans (hcfg.trans h.configured), ?_, ?_, ?_, fun _ => ?_⟩
    · rw [hlength]
      show (m.elapsed + 100).toNat = _
      rw [UInt64.toNat_add, h.elapsed]
      show (100 * rounds.length + 100) % 2 ^ 64 = _
      omega
    · rw [hlength, hreported.sense]
      exact h.sensed.ticked hpace
    · rw [hlength, hreported.seq, hseq]
      omega
    · intro e he
      rw [hasleep] at he
      rw [hreported.seq, hseq]
      rcases hentry with ⟨rfl, hsame⟩ | ⟨-, j, e', he', hnum, -⟩
      · exact h.inTurn e (hsame ▸ he)
      · rw [he'] at he
        obtain rfl := Option.some.inj he
        rw [hnum, hreported.seq, hseq]
        omega
    · rw [hlength, Nat.add_sub_cancel, hasleep]
      rcases hentry with ⟨hnone, hsame⟩ | ⟨-, j, e, he, hnum, hpresent, hseen⟩
      · -- nothing reported: what the round before had stands
        obtain ⟨hk, hpresent⟩ := hzero hnone
        have hne : rounds ≠ [] := by
          rintro rfl
          exact hk rfl
        obtain ⟨i, r', j, e, hi, hle, he, hnum, hwas, hseen⟩ := h.shown hne
        refine ⟨i, r', j, e, ?_, by omega, by rw [hsame]; exact he, ?_, ?_, hseen⟩
        · rw [List.getElem?_append_left (List.getElem?_eq_some_iff.1 hi).1]
          exact hi
        · refine hnum.trans (UInt64.toNat_inj.1 ?_)
          rw [hreported.seq, hseq, hnone, Nat.add_zero]
        · rw [hwas, ← hpresent, hreported.sense]
      · refine ⟨rounds.length, r, j, e, by simp, by omega, he, hnum, ?_, hseen⟩
        rw [hpresent, hreported.sense]

/-- **The loop up to any round** that it has come through. -/
theorem EdgeMain.running {s : Server} (hseq : ∀ e, s.entry cfg.dogId = some e → e.seq ≤ 1) (rounds : List Round) :
    100 * rounds.length < 2 ^ 64 → (∀ r ∈ rounds, r.Quiet st cfg.dogId) →
    (EdgeMain.run st stepOnMs cfg s rounds).error = none →
    (EdgeMain.run st stepOnMs cfg s rounds).Running stepOnMs cfg rounds := by
  induction rounds using List.reverseRecOn with
  | nil =>
    exact fun _ _ _ => ⟨rfl, rfl, .new stepOnMs, Nat.le_refl 0, fun e he => UInt64.le_iff_toNat_le.1 (hseq e he),
      fun h => absurd rfl h⟩
  | append_singleton rounds r ih =>
    intro hpace hquiet hok
    rw [List.length_append, List.length_singleton] at hpace
    rw [EdgeMain.run_snoc] at hok ⊢
    have hbefore : (EdgeMain.run st stepOnMs cfg s rounds).error = none := by
      cases herror : (EdgeMain.run st stepOnMs cfg s rounds).error with
      | none => rfl
      | some e =>
        unfold EdgeMain.step at hok
        rw [herror] at hok
        cases hok
    have hrunning := ih (by omega) (fun r' hr' => hquiet r' (List.mem_append_left _ hr')) hbefore
    exact hrunning.step (hquiet r (List.mem_append_right _ (List.mem_singleton_self r))) hpace hok

end

/-! ## A loop that is answered goes on -/

/-- Every report of the round is handled, and the answer heard. -/
def Round.Answered (r : Round) : Prop := ∀ i, ∃ clock, (r.hops i).2 = .handled clock true

section

variable {st : AppState} {cfg : EdgeConfig} {κ : Nat → List Arrival × Hop}

/-- The credentials of the agent are good. -/
def Enrolled (st : AppState) (cfg : EdgeConfig) : Prop :=
  verifyDevice st ((EdgeAgent.new cfg).authHeader st.formats) cfg.terminalId cfg.dogId = .ok ()

theorem publishNow_answered (hcfg : Enrolled st cfg) {a : EdgeAgent} (ha : a.cfg = cfg)
    (hκ : ∃ clock, (κ 0).2 = .handled clock true) (t : DateTime) (s : Server) :
    (a.publishNow st.formats t).Yields (Hop.execAfter st) κ s (fun r _ => r.1 = .ok () ∧ r.2.cfg = cfg) := by
  obtain ⟨clock, hhop⟩ := hκ
  have hv : verifyDevice st ((a.nextReport t).2.authHeader st.formats) (a.nextReport t).1.terminalId
      (a.nextReport t).1.dogId = .ok () := by
    rw [← ha] at hcfg
    exact hcfg
  unfold EdgeAgent.publishNow
  simp only [http, Prog.op_bind, Prog.pure_eq]
  refine Prog.Yields.call (fun answer s' hexec => ?_)
  have hanswer : answer = .answered 204 none := by
    have hfst := congrArg Prod.fst hexec
    unfold Hop.execAfter at hfst
    rw [hhop] at hfst
    exact hfst.symm.trans (congrArg (Reply.answer _) (postPresence_ok hv clock _))
  rw [hanswer]
  exact ⟨rfl, ha⟩

theorem publishFlips_answered (hcfg : Enrolled st cfg) : ∀ (snaps : List SenseSnapshot) {a : EdgeAgent}, a.cfg = cfg →
    ∀ (ts : Nat → DateTime) {κ : Nat → List Arrival × Hop}, (∀ i, ∃ clock, (κ i).2 = .handled clock true) →
    ∀ s, (a.publishFlips st.formats ts snaps).Yields (Hop.execAfter st) κ s (fun r _ => r.1 = .ok () ∧ r.2.cfg = cfg)
  | [], _, ha, _, _, _, _ => ⟨rfl, ha⟩
  | snap :: snaps, a, ha, ts, κ, hκ, s => by
    unfold EdgeAgent.publishFlips
    split
    · refine Prog.Yields.bindLater ((publishNow_answered hcfg ha (hκ 0) (ts 0) s).mono (fun r s' hr n => ?_))
      obtain ⟨r, b⟩ := r
      obtain ⟨rfl, hb⟩ := hr
      exact publishFlips_answered hcfg snaps hb _ (fun i => hκ (i + n)) s'
    · exact publishFlips_answered hcfg snaps ha _ hκ s

theorem mainRound_answered (hcfg : Enrolled st cfg) {a : EdgeAgent} (ha : a.cfg = cfg)
    (hκ : ∀ i, ∃ clock, (κ i).2 = .handled clock true) (stepOnMs elapsed : UInt64) (ts : Nat → DateTime) (s : Server) :
    (a.mainRound st.formats stepOnMs elapsed ts).Yields (Hop.execAfter st) κ s
      (fun r _ => r.1 = .ok () ∧ r.2.cfg = cfg) := by
  unfold EdgeAgent.mainRound
  dsimp only
  generalize (if elapsed ≥ stepOnMs then McuEmu.new.setWorld (.dogOnMat (.finite 120)) else McuEmu.new).tick50ms.1 =
    bytes
  have hb := (a.ingestUart_kept bytes 100).1.trans ha
  generalize a.ingestUart bytes 100 = out at hb ⊢
  obtain ⟨⟨snaps, _⟩, b⟩ := out
  refine Prog.Yields.bindLater ((publishFlips_answered hcfg snaps hb ts hκ s).mono (fun r s' hr n => ?_))
  obtain ⟨r, b⟩ := r
  obtain ⟨rfl, hb⟩ := hr
  dsimp only
  split
  · exact publishNow_answered hcfg hb (hκ (0 + n)) _ s'
  · exact ⟨rfl, hb⟩

/-- **The loop goes on** as long as its reports are handled and answered. -/
theorem EdgeMain.run_answered (hcfg : Enrolled st cfg) (stepOnMs : UInt64) (s : Server) (rounds : List Round) :
    (∀ r ∈ rounds, r.Answered) → (EdgeMain.run st stepOnMs cfg s rounds).error = none ∧
      (EdgeMain.run st stepOnMs cfg s rounds).agent.cfg = cfg := by
  induction rounds using List.reverseRecOn with
  | nil => exact fun _ => ⟨rfl, rfl⟩
  | append_singleton rounds r ih =>
    intro hanswered
    have hbefore := ih (fun r' hr' => hanswered r' (List.mem_append_left _ hr'))
    rw [EdgeMain.run_snoc]
    generalize EdgeMain.run st stepOnMs cfg s rounds = m at hbefore ⊢
    obtain ⟨herror, hagent⟩ := hbefore
    have hround := mainRound_answered hcfg hagent (hanswered r (List.mem_append_right _ (List.mem_singleton_self r)))
      stepOnMs m.elapsed r.ts m.server
    unfold EdgeMain.step
    rw [herror]
    unfold Prog.Yields at hround
    generalize (m.agent.mainRound st.formats stepOnMs m.elapsed r.ts).eval (Hop.execAfter st) r.hops m.server = out
      at hround ⊢
    obtain ⟨⟨res, b⟩, server⟩ := out
    obtain ⟨rfl, hb⟩ := hround
    exact ⟨rfl, hb⟩

end

/-- **The mat's dog is shown present, in time and only then.**  While the loop's reports are acknowledged and nobody
else reports the dog, after every round device-api shows it present exactly if it stepped on the mat at least 800 ms
before that round and the last report, made in one of the last twenty rounds, is within the time to live.  The process
numbers its reports from 1, so the dog's entry must not come from a longer run before (`hseq`); and its clock, in
milliseconds, must not wrap (`hpace`). -/
theorem mat_shown (st : AppState) (stepOnMs : UInt64) (cfg : EdgeConfig) (s : Server) (rounds : List Round)
    (hne : rounds ≠ []) (hpace : 100 * rounds.length < 2 ^ 64) (hquiet : ∀ r ∈ rounds, r.Quiet st cfg.dogId)
    (hseq : ∀ e, s.entry cfg.dogId = some e → e.seq ≤ 1)
    (hok : (EdgeMain.run st stepOnMs cfg s rounds).error = none) :
    ∃ r ∈ rounds.drop (rounds.length - 20), ∃ n, ∀ now,
      (EdgeMain.run st stepOnMs cfg s rounds).server.world.data.presence.isPresent cfg.dogId now =
        (decide (stepOnMs.toNat + 800 ≤ 100 * (rounds.length - 1)) && decide (now.since (r.ts n) < 10001000000)) := by
  have hrunning := EdgeMain.running hseq rounds hpace hquiet hok
  obtain ⟨i, r, n, e, hi, hrecent, he, -, hpresent, hseen⟩ := hrunning.shown hne
  have hlt := (List.getElem?_eq_some_iff.1 hi).1
  refine ⟨r, List.mem_iff_getElem?.2 ⟨i - (rounds.length - 20), ?_⟩, n, fun now => ?_⟩
  · rw [List.getElem?_drop, show rounds.length - 20 + (i - (rounds.length - 20)) = i by omega]
    exact hi
  · rw [Bool.eq_iff_iff, PresenceStore.isPresent_iff, Bool.and_eq_true, decide_eq_true_iff (p := now.since _ < _),
      ← hrunning.sensed.present, ← hpresent, ← hseen]
    unfold Server.entry at he
    rw [he]
    simp

/-- Ten rounds, all at noon. -/
def tenRounds : List Round := List.replicate 10 ⟨fun _ => noon, fun _ => ([], .handled (fun _ => noon) true), []⟩

/-- The dog is on the mat from the start; at the tenth round it is shown present. -/
theorem mat_shown_tenth : (EdgeMain.run bench 0 terminal1 ⟨fresh, noon⟩ tenRounds).server.world.data.presence.isPresent
    terminal1.dogId noon = true := by
  obtain ⟨r, hr, n, h⟩ := mat_shown bench 0 terminal1 ⟨fresh, noon⟩ tenRounds (by decide) (by decide)
    (fun r hr => by
      obtain rfl := List.eq_of_mem_replicate hr
      exact ⟨fun _ _ ha => absurd ha List.not_mem_nil, fun _ ha => absurd ha List.not_mem_nil⟩)
    (fun e he => by cases he)
    (EdgeMain.run_answered (show Enrolled bench terminal1 from rfl) 0 _ tenRounds (fun r hr => by
      obtain rfl := List.eq_of_mem_replicate hr
      exact fun _ => ⟨_, rfl⟩)).1
  obtain rfl := List.eq_of_mem_replicate (List.mem_of_mem_drop hr)
  refine (h noon).trans ?_
  show (decide (UInt64.toNat 0 + 800 ≤ 100 * (tenRounds.length - 1)) && decide (noon.since noon < 10001000000)) = true
  decide +kernel

end CanisLink
