import CanisLink.DeviceSocket
/-!
# Pushes — what a connected device is told

Whatever the requests and the other devices do, a device is sent the events published to its dog since it connected, in
their order, none twice and nothing else.  What its receiver skipped is all that is left out; and whenever its loop has
caught up, the last thing it was sent are the newest events, as many as the channel keeps.
-/
namespace CanisLink

open Interleave (Pool)

/-! ## The hub -/

section

variable (hub : EventHub) (d dog : DogId) (ev : DeviceEvent)

theorem lookup_publish : (hub.publish d ev).inner.lookup dog =
    if d = dog then (hub.inner.lookup dog).map (· ++ [ev]) else hub.inner.lookup dog := by
  unfold EventHub.publish
  split
  · rename_i sent hd
    rw [HashMap.lookup_insert]
    by_cases h : d = dog
    · subst h
      rw [if_pos rfl, if_pos rfl, hd]
      rfl
    · rw [if_neg (Ne.symm h), if_neg h]
  · rename_i hd
    split
    · rename_i h
      rw [← h, hd]
      rfl
    · rfl

theorem lookup_subscribe : (hub.subscribe d).inner.lookup dog =
    if d = dog then some (hub.channel dog) else hub.inner.lookup dog := by
  unfold EventHub.subscribe EventHub.channel
  by_cases hd : d ∈ hub.inner
  · rw [if_pos hd]
    split
    · rename_i h
      obtain ⟨sent, hsent⟩ := AList.lookup_isSome.2 (h ▸ hd) |> Option.isSome_iff_exists.1
      rw [hsent]
      rfl
    · rfl
  · rw [if_neg hd, HashMap.lookup_insert]
    by_cases h : d = dog
    · subst h
      rw [if_pos rfl, if_pos rfl, AList.lookup_eq_none.2 hd]
      rfl
    · rw [if_neg (Ne.symm h), if_neg h]

theorem channel_of_lookup {hub : EventHub} {dog : DogId} {sent : List DeviceEvent}
    (h : hub.inner.lookup dog = some sent) : hub.channel dog = sent := by
  unfold EventHub.channel
  rw [h]
  rfl

end

theorem exec_hub (st : AppState) (t : DateTime) (c : Call) (w : World) : (exec st t c w).2.hub =
    match c with
    | .publish d ev => w.hub.publish d ev
    | _ => w.hub := by
  cases c with
  | invitesInsert inv => exact invitesInsert_keeps st t w (·.hub) (fun _ => rfl) inv
  | sessionsInsert x => exact sessionsInsert_keeps st t w (·.hub) (fun _ => rfl) x
  | _ => rfl

/-- **A call adds to the channel of a dog what it publishes to it.** -/
theorem lookup_exec (st : AppState) (t : DateTime) (c : Call) (w : World) (i : Nat) (r : c.Resp) (dog : DogId) :
    (exec st t c w).2.hub.inner.lookup dog = (w.hub.inner.lookup dog).map (· ++ published dog [⟨i, t, c, r⟩]) := by
  rw [exec_hub]
  cases c with
  | publish d ev =>
    rw [lookup_publish]
    by_cases h : d = dog
    · simp [published, h]
    · simp [published, h]
  | _ => simp [published]

/-! ## A socket -/

namespace DeviceSocket

/-- What a loop has taken from its channel it has sent, as long as it runs. -/
structure Passes (s : DeviceSocket) : Prop where
  sent : s.events <+: s.rx.taken
  all : s.running = true → s.events = s.rx.taken

section

variable {s : DeviceSocket}

@[simp] theorem send_dog (m : WsMessage) (ok : Bool) : (s.send m ok).dog = s.dog := by
  unfold send
  split
  · split <;> rfl
  · rfl

@[simp] theorem send_rx (m : WsMessage) (ok : Bool) : (s.send m ok).rx = s.rx := by
  unfold send
  split
  · split <;> rfl
  · rfl

theorem written_send (m : WsMessage) (ok : Bool) : s.written <+: (s.send m ok).written := by
  unfold send
  split
  · split
    · exact List.prefix_append _ _
    · exact List.prefix_refl _
  · exact List.prefix_refl _

/-- A message that is no event leaves the events as they are. -/
theorem Passes.send (h : s.Passes) {m : WsMessage} (hm : ∀ e, m ≠ .event e) (ok : Bool) : (s.send m ok).Passes := by
  unfold DeviceSocket.send
  split
  · rename_i hrun
    split
    · have hevents : ({ s with written := s.written ++ [m] } : DeviceSocket).events = s.events := by
        unfold events
        rw [List.filterMap_append]
        cases m with
        | event e => exact absurd rfl (hm e)
        | _ => exact List.append_nil _
      exact ⟨hevents ▸ h.sent, fun _ => hevents.trans (h.all hrun)⟩
    · exact ⟨h.sent, fun hc => by cases hc⟩
  · exact h

/-- An event just taken is sent, or the loop ends. -/
theorem Passes.pass (h : s.Passes) (hrun : s.running = true) {rx : Feed.Receiver DeviceEvent} {e : DeviceEvent}
    (hrx : rx.taken = s.rx.taken ++ [e]) (ok : Bool) : (({ s with rx } : DeviceSocket).send (.event e) ok).Passes := by
  have hall := h.all hrun
  unfold DeviceSocket.send
  rw [if_pos hrun]
  split
  · have hevents : ({ s with rx, written := s.written ++ [.event e] } : DeviceSocket).events = s.events ++ [e] :=
      List.filterMap_append
    have heq : ({ s with rx, written := s.written ++ [.event e] } : DeviceSocket).events = rx.taken := by
      rw [hevents, hrx, hall]
    exact ⟨heq ▸ List.prefix_refl _, fun _ => heq⟩
  · refine ⟨?_, fun hc => by cases hc⟩
    show s.events <+: rx.taken
    rw [hrx]
    exact h.sent.trans (List.prefix_append _ _)

theorem turn_recv (sent : List DeviceEvent) (ok : Bool) :
    (∃ e, (s.rx.recv eventCapacity sent).2.taken = s.rx.taken ++ [e] ∧ s.turn sent (.recv ok) =
      ({ s with rx := (s.rx.recv eventCapacity sent).2 } : DeviceSocket).send (.event e) ok) ∨
    ((s.rx.recv eventCapacity sent).2.taken = s.rx.taken ∧
      s.turn sent (.recv ok) = { s with rx := (s.rx.recv eventCapacity sent).2 }) := by
  unfold turn
  rcases Feed.Receiver.recv_cases eventCapacity sent s.rx with ⟨-, hr⟩ | ⟨e, -, hr⟩ | ⟨-, hr⟩
  · right
    rw [hr]
    exact ⟨rfl, rfl⟩
  · left
    rw [hr]
    exact ⟨e, rfl, rfl⟩
  · right
    rw [hr]
    exact ⟨rfl, rfl⟩

/-- **A turn keeps the dog and what was sent**, and at most takes from the channel. -/
theorem turn_keeps (sent : List DeviceEvent) (s : DeviceSocket) (t : Turn) : (s.turn sent t).dog = s.dog ∧
    ((s.turn sent t).rx = s.rx ∨ (s.turn sent t).rx = (s.rx.recv eventCapacity sent).2) ∧
    s.written <+: (s.turn sent t).written := by
  cases t with
  | tick ts ok ok' =>
    refine ⟨by simp [turn], .inl (by simp [turn]), ?_⟩
    exact (written_send _ _).trans (written_send _ _)
  | recv ok =>
    rcases turn_recv sent ok with ⟨e, -, ht⟩ | ⟨-, ht⟩
    · rw [ht]
      refine ⟨by simp, .inr (by simp), ?_⟩
      exact written_send (s := { s with rx := (s.rx.recv eventCapacity sent).2 }) _ _
    · rw [ht]
      exact ⟨rfl, .inr rfl, List.prefix_refl _⟩
  | incoming m ok =>
    cases m with
    | text t =>
      simp only [turn]
      split
      · exact ⟨rfl, .inl rfl, List.prefix_append _ _⟩
      · exact ⟨rfl, .inl rfl, List.prefix_refl _⟩
    | _ => exact ⟨rfl, .inl rfl, List.prefix_refl _⟩

theorem Passes.turn (h : s.Passes) (hrun : s.running = true) (sent : List DeviceEvent) (t : Turn) :
    (s.turn sent t).Passes := by
  cases t with
  | tick ts ok ok' => exact (h.send (fun _ he => by cases he) ok).send (fun _ he => by cases he) ok'
  | recv ok =>
    rcases turn_recv sent ok with ⟨e, htaken, ht⟩ | ⟨htaken, ht⟩
    · rw [ht]
      exact h.pass hrun htaken ok
    · rw [ht]
      exact ⟨htaken.symm ▸ h.sent, fun hr => (h.all hr).trans htaken.symm⟩
  | incoming m ok =>
    cases m with
    | text t =>
      simp only [DeviceSocket.turn]
      split
      · have hevents : ({ s with written := s.written ++ [.pong] } : DeviceSocket).events = s.events :=
          List.filterMap_append.trans (List.append_nil _)
        exact ⟨hevents ▸ h.sent, fun hr => hevents.trans (h.all hr)⟩
      · exact h
    | ping => exact h
    | pong => exact h
    | binary => exact h
    | _ => exact ⟨h.sent, fun hc => by cases hc⟩

end

end DeviceSocket

/-! ## A run -/

/-- The events of the dog that a socket has still to take. -/
def Live.behind (l : Live) (s : DeviceSocket) : Nat := (l.hub.channel s.dog).length - s.rx.pos

/-- Socket `n` listens to `dog`; the channel had `before` and the log `k` calls when it connected. -/
structure Listens (dog : DogId) (before : List DeviceEvent) (k n : Nat) (l : Live) (s : DeviceSocket) : Prop where
  found : l.sockets[n]? = some s
  hears : s.dog = dog
  follows : s.rx.Follows eventCapacity (l.hub.channel dog)
  begun : s.rx.start = before.length
  passes : s.Passes
  channel : l.hub.inner.lookup dog = some (before ++ published dog (l.pool.log.drop k))
  logged : k ≤ l.pool.log.length

section

variable {st : AppState} {dog : DogId} {before : List DeviceEvent} {k n : Nat} {l : Live} {s : DeviceSocket}

theorem start_keeps (dog : DogId) (sent : List DeviceEvent) (ok : Bool) : (DeviceSocket.start dog sent ok).dog = dog ∧
    (DeviceSocket.start dog sent ok).rx = Feed.subscribe sent ∧ (DeviceSocket.start dog sent ok).Passes := by
  have hfresh : ({ dog, rx := Feed.subscribe sent } : DeviceSocket).Passes := ⟨List.nil_prefix, fun _ => rfl⟩
  exact ⟨DeviceSocket.send_dog .., DeviceSocket.send_rx .., hfresh.send (fun _ he => by cases he) ok⟩

/-- The socket of a device that has just connected. -/
theorem listens_connect {h : HeaderMap} {q : WsQuery} (hws : deviceWs st h q = .ok dog) (l : Live) (ok : Bool) :
    Listens dog (l.hub.channel dog) l.pool.log.length l.sockets.length (l.step st (.connect h q ok))
      (DeviceSocket.start dog (l.hub.channel dog) ok) := by
  have hlookup : (l.hub.subscribe dog).inner.lookup dog = some (l.hub.channel dog) := by
    rw [lookup_subscribe, if_pos rfl]
  obtain ⟨hdog, hrx, hpasses⟩ := start_keeps dog (l.hub.channel dog) ok
  rw [Live.step_connect hws, channel_of_lookup hlookup]
  refine ⟨List.getElem?_concat_length, hdog, ?_, by rw [hrx]; rfl, hpasses, ?_, le_refl _⟩
  · rw [hrx]
    show Feed.Receiver.Follows _ ((l.hub.subscribe dog).channel dog) _
    rw [channel_of_lookup hlookup]
    exact Feed.Receiver.follows_subscribe _ _
  · show (l.hub.subscribe dog).inner.lookup dog = some (_ ++ published dog (l.pool.log.drop l.pool.log.length))
    rw [hlookup, List.drop_length, published_nil, List.append_nil]

variable (st) in
/-- **Every action of the server leaves the socket listening**, with all that it was sent. -/
theorem Listens.step (h : Listens dog before k n l s) (a : LiveAction) :
    ∃ s', Listens dog before k n (l.step st a) s' ∧ s.written <+: s'.written := by
  cases a with
  | call i t =>
    refine ⟨s, ?_, List.prefix_refl _⟩
    rcases Pool.step_cases (exec st) l.pool (i, t) with hs | ⟨c, _, -, hs⟩
    · rw [Live.step_call, hs]
      exact h
    · -- the call adds to the channel and to the log the same events
      have hchannel : (l.step st (.call i t)).hub.inner.lookup dog =
          some ((before ++ published dog (l.pool.log.drop k)) ++
            published dog [⟨i, t, c, (exec st t c l.pool.state).1⟩]) := by
        show (l.pool.step (exec st) (i, t)).state.hub.inner.lookup dog = _
        rw [hs, lookup_exec st t c _ i (exec st t c l.pool.state).1]
        have hbefore : l.pool.state.hub.inner.lookup dog = _ := h.channel
        rw [hbefore]
        rfl
      have hlog : (l.step st (.call i t)).pool.log = l.pool.log ++ [⟨i, t, c, (exec st t c l.pool.state).1⟩] := by
        show (l.pool.step (exec st) (i, t)).log = _
        rw [hs]
      refine ⟨h.found, h.hears, ?_, h.begun, h.passes, ?_, ?_⟩
      · rw [channel_of_lookup hchannel]
        have hfollows := h.follows
        rw [channel_of_lookup h.channel] at hfollows
        exact hfollows.append _
      · rw [hchannel, hlog, List.drop_append_of_le_length h.logged, published_append, List.append_assoc]
      · rw [hlog, List.length_append]
        exact h.logged.trans (Nat.le_add_right _ _)
  | connect hd q ok =>
    refine ⟨s, ?_, List.prefix_refl _⟩
    cases hws : deviceWs st hd q with
    | error e =>
      rw [Live.step_refuse hws]
      exact h
    | ok d =>
      have hlookup : (l.hub.subscribe d).inner.lookup dog = l.hub.inner.lookup dog := by
        rw [lookup_subscribe]
        split
        · rw [h.channel, channel_of_lookup h.channel]
        · rfl
      have hfound : ∀ s' : DeviceSocket, (l.sockets ++ [s'])[n]? = some s := fun s' => by
        rw [List.getElem?_append_left (List.getElem?_eq_some_iff.1 h.found).1]
        exact h.found
      rw [Live.step_connect hws]
      refine ⟨hfound _, h.hears, ?_, h.begun, h.passes, ?_, h.logged⟩
      · show Feed.Receiver.Follows _ ((l.hub.subscribe d).channel dog) _
        rw [channel_of_lookup (hlookup.trans h.channel), ← channel_of_lookup h.channel]
        exact h.follows
      · exact hlookup.trans h.channel
  | turn m t =>
    have hlater : ∀ s' : DeviceSocket, (l.step st (.turn m t)).sockets[n]? = some s' → s'.dog = dog →
        s'.rx.Follows eventCapacity (l.hub.channel dog) → s'.rx.start = before.length → s'.Passes →
        Listens dog before k n (l.step st (.turn m t)) s' := fun s' hfound hdog hfollows hbegun hpasses =>
      ⟨hfound, hdog, hfollows, hbegun, hpasses, h.channel, h.logged⟩
    have hfound : (l.step st (.turn m t)).sockets[n]? = (l.sockets.modify m
        (fun s => if s.running then s.turn (l.hub.channel s.dog) t else s))[n]? := rfl
    rw [List.getElem?_modify, h.found] at hfound
    by_cases hm : m = n ∧ s.running = true
    · obtain ⟨hdog, hrx, hwritten⟩ := DeviceSocket.turn_keeps (l.hub.channel s.dog) s t
      refine ⟨s.turn (l.hub.channel s.dog) t, hlater _ ?_ (hdog.trans h.hears) ?_ ?_ (h.passes.turn hm.2 _ t), hwritten⟩
      · rw [hfound]
        simp [hm.1, hm.2]
      · rcases hrx with hrx | hrx
        · rw [hrx]
          exact h.follows
        · rw [hrx, h.hears]
          exact h.follows.recv
      · rcases hrx with hrx | hrx
        · rw [hrx]
          exact h.begun
        · rw [hrx, Feed.Receiver.recv_start]
          exact h.begun
    · refine ⟨s, hlater s ?_ h.hears h.follows h.begun h.passes, List.prefix_refl _⟩
      rw [hfound]
      by_cases hmn : m = n
      · have hstopped : s.running = false := by simpa [hmn] using hm
        simp [hstopped]
      · simp [hmn]

variable (st) in
theorem Listens.run : ∀ (as : List LiveAction) {l : Live} {s : DeviceSocket}, Listens dog before k n l s →
    ∃ s', Listens dog before k n (l.run st as) s' ∧ s.written <+: s'.written
  | [], _, s, h => ⟨s, h, List.prefix_refl _⟩
  | a :: as, _, _, h => by
    obtain ⟨s₁, h₁, hle₁⟩ := h.step st a
    obtain ⟨s₂, h₂, hle₂⟩ := Listens.run as h₁
    exact ⟨s₂, h₂, hle₁.trans hle₂⟩

end

/-! ## What the device is sent -/

/-- What a device that stands `behind` events behind is sent of the events `told` to it. -/
structure DeviceSocket.Pushed (s : DeviceSocket) (told : List DeviceEvent) (behind : Nat) : Prop where
  /-- In their order, none twice and no others. -/
  order : s.events.Sublist told
  /-- Each event is sent, or counted as missed, or has still to be taken. -/
  counted : s.running = true → s.events.length + s.rx.missed + behind = told.length
  whole : s.running = true → s.rx.missed = 0 → s.events <+: told
  newest : s.running = true → behind = 0 → told.drop (told.length - eventCapacity) <:+ s.events

/-- Nothing is missed and nothing is waiting, so all that was told is sent. -/
theorem DeviceSocket.Pushed.caught_up {s : DeviceSocket} {told : List DeviceEvent} {behind : Nat}
    (h : s.Pushed told behind) (hrun : s.running = true) (hmissed : s.rx.missed = 0) (hup : behind = 0) :
    s.events = told := by
  have hcounted := h.counted hrun
  exact (h.whole hrun hmissed).eq_of_length (by omega)

theorem Listens.pushed {dog : DogId} {before : List DeviceEvent} {k n : Nat} {l : Live} {s : DeviceSocket}
    (h : Listens dog before k n l s) : s.Pushed (published dog (l.pool.log.drop k)) (l.behind s) := by
  have hfollows := h.follows
  have hbehind : l.behind s = (l.hub.channel dog).length - s.rx.pos := by
    unfold Live.behind
    rw [h.hears]
  rw [hbehind]
  rw [channel_of_lookup h.channel] at hfollows ⊢
  refine ⟨?_, fun hrun => ?_, fun hrun hmissed => ?_, fun hrun hup => ?_⟩
  · exact h.passes.sent.sublist.trans (hfollows.taken_sublist h.begun)
  · rw [h.passes.all hrun]
    exact hfollows.counted h.begun
  · rw [h.passes.all hrun]
    exact hfollows.taken_prefix h.begun hmissed
  · rw [h.passes.all hrun]
    exact hfollows.newest_taken h.begun (Nat.le_antisymm hfollows.within (Nat.sub_eq_zero_iff_le.1 hup))

/-- **A device hears what is published to its dog from the moment it connects**, whatever requests are at work and
whatever other devices do: in order, none twice, all but what its receiver skipped, and the newest when it has caught
up.  It is greeted first. -/
theorem pushed_in_order (st : AppState) (l : Live) (h : HeaderMap) (q : WsQuery) (dog : DogId)
    (hws : deviceWs st h q = .ok dog) (actions : List LiveAction) :
    ∃ s, ((l.step st (.connect h q true)).run st actions).sockets[l.sockets.length]? = some s ∧ s.dog = dog ∧
      s.written.head? = some (.hello dog) ∧
      s.Pushed (published dog (((l.step st (.connect h q true)).run st actions).pool.log.drop l.pool.log.length))
        (((l.step st (.connect h q true)).run st actions).behind s) := by
  obtain ⟨s, hs, hle⟩ := (listens_connect hws l true).run st actions
  refine ⟨s, hs.found, hs.hears, ?_, hs.pushed⟩
  obtain ⟨rest, hrest⟩ := hle
  rw [← hrest]
  rfl

/-- The query of the device of dog `n`, whose token comes with the header. -/
def wsQuery (n : Uuid) : WsQuery := { dogId := some (decimals.uuid n), terminalId := some (decimals.uuid n) }

/-- Dog 1 is about to call dog 2, its friend. -/
def aboutToCall : Live where
  pool := Pool.start (serveAt bench noon fresh [.devBootstrapBond ⟨1⟩ ⟨2⟩ 1, stepOn 1 noon, stepOn 2 noon])
    [handle bench (callTo 1 2)]
  sockets := []

/-- The call is handled, and then the socket takes what was published. -/
def callHeard : List LiveAction := List.replicate 20 (.call 0 noon) ++ [.turn 0 (.recv true)]

/-- The invite of the first call. -/
def rungInvite : Invite where
  id := ⟨0⟩
  fromDog := ⟨1⟩
  toDog := ⟨2⟩
  mode := .portal
  state := .ringing
  expiresAt := epoch 43225
  createdAt := noon

/-- By then the socket has kept up. -/
theorem callHeard_caught_up {s : DeviceSocket} (hs : ((aboutToCall.step bench (.connect (device 2) (wsQuery 2)
    true)).run bench callHeard).sockets[0]? = some s) : s.running = true ∧ s.rx.missed = 0 ∧
      ((aboutToCall.step bench (.connect (device 2) (wsQuery 2) true)).run bench callHeard).behind s = 0 := by
  have hkept : (((aboutToCall.step bench (.connect (device 2) (wsQuery 2) true)).run bench callHeard).sockets[0]?).all
      (fun s => s.running && decide (s.rx.missed = 0) && decide
        (((aboutToCall.step bench (.connect (device 2) (wsQuery 2) true)).run bench callHeard).behind s = 0)) =
        true := by
    decide +kernel
  rw [hs] at hkept
  simpa [and_assoc] using hkept

theorem pushed_in_order_ringing : ∃ s, ((aboutToCall.step bench (.connect (device 2) (wsQuery 2) true)).run bench
    callHeard).sockets[0]? = some s ∧ s.events = [.inviteRinging rungInvite "slow_pulse_blue"] := by
  obtain ⟨s, hs, -, -, hpushed⟩ :=
    pushed_in_order bench aboutToCall (device 2) (wsQuery 2) ⟨2⟩ (by decide +kernel) callHeard
  have htold : published ⟨2⟩ (((aboutToCall.step bench (.connect (device 2) (wsQuery 2) true)).run bench
      callHeard).pool.log.drop aboutToCall.pool.log.length) = [.inviteRinging rungInvite "slow_pulse_blue"] := by
    decide +kernel
  obtain ⟨hrun, hmissed, hup⟩ := callHeard_caught_up hs
  exact ⟨s, hs, (hpushed.caught_up hrun hmissed hup).trans htold⟩

end CanisLink
