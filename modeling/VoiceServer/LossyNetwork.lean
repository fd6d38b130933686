/-
Hosts over a network that loses, repeats and delays what they send.  Each host is
a machine of its own.  What one receives was sent to it, and a law that every
host keeps, as long as what it received keeps it, holds of all that is sent.
-/
import Mathlib.Logic.Function.Basic
import VoiceServer.Projection

namespace VoiceServer

universe u

/-- A host as the network sees it: its step, the events that come without a
message, the message that an output puts on the network, and the event of a
message that arrives, to which the arrival adds a mark. -/
structure Node (A S E O M T : Type u) where
  step : S → E → Option (S × List O)
  own : E → Bool
  sends : O → Option (A × M)
  arrival : A → M → T → E

structure Envelope (A M : Type u) where
  source : A
  target : A
  content : M
deriving DecidableEq, Repr

/-- The hosts at their addresses, and what is on its way. -/
structure Network (A S M : Type u) where
  hosts : A → Option S
  inFlight : List (Envelope A M)

/-- A host takes an event of its own, or something happens to a message in
flight.  Any one may be the next to arrive. -/
inductive NetworkEvent (A E T : Type u) where
  | act (address : A) (event : E)
  | arrive (position : Nat) (mark : T)
  | lose (position : Nat)
  | duplicate (position : Nat)
deriving DecidableEq, Repr

variable {A S E O M T : Type u}

namespace Network

/-- The messages that a host puts on the network. -/
def envelopes (node : Node A S E O M T) (address : A) (outs : List O) :
    List (Envelope A M) :=
  (outs.filterMap node.sends).map fun message => ⟨address, message.1, message.2⟩

/-- The message at a position, taken off the network. -/
def drop (network : Network A S M) (position : Nat) : Network A S M :=
  { network with inFlight := network.inFlight.eraseIdx position }

/-- Some host has put the message on the network. -/
def Sent (node : Node A S E O M T) (outs : List (A × O))
    (envelope : Envelope A M) : Prop :=
  ∃ out, (envelope.source, out) ∈ outs ∧
    node.sends out = some (envelope.target, envelope.content)

/-- An event that a host may take: one of its own, or the arrival of a message
of which `P` holds. -/
def Receives (node : Node A S E O M T) (P : Envelope A M → Prop) (address : A)
    (event : E) : Prop :=
  node.own event = true ∨ ∃ source content mark,
    event = node.arrival source content mark ∧ P ⟨source, address, content⟩

section Messages

variable {node : Node A S E O M T} {network : Network A S M}
  {outs : List (A × O)}

theorem Receives.mono {P Q : Envelope A M → Prop} {address : A} {event : E}
    (hreceives : Receives node P address event)
    (himp : ∀ envelope, P envelope → Q envelope) :
    Receives node Q address event := by
  rcases hreceives with hown | ⟨source, content, mark, hevent, hsent⟩
  · exact Or.inl hown
  · exact Or.inr ⟨source, content, mark, hevent, himp _ hsent⟩

theorem Sent.append {envelope : Envelope A M} (hsent : Sent node outs envelope)
    (new : List (A × O)) : Sent node (outs ++ new) envelope := by
  obtain ⟨out, hout, hsends⟩ := hsent
  exact ⟨out, List.mem_append_left _ hout, hsends⟩

theorem mem_drop {position : Nat} {envelope : Envelope A M}
    (henvelope : envelope ∈ (network.drop position).inFlight) :
    envelope ∈ network.inFlight :=
  List.mem_of_mem_eraseIdx henvelope

theorem mem_envelopes {address : A} {out : List O} {envelope : Envelope A M} :
    envelope ∈ envelopes node address out ↔
      envelope.source = address ∧ ∃ one ∈ out,
        node.sends one = some (envelope.target, envelope.content) := by
  simp only [envelopes, List.mem_map, List.mem_filterMap]
  constructor
  · rintro ⟨⟨target, content⟩, ⟨one, hone, hsends⟩, rfl⟩
    exact ⟨rfl, one, hone, hsends⟩
  · rintro ⟨rfl, one, hone, hsends⟩
    exact ⟨_, ⟨one, hone, hsends⟩, rfl⟩

end Messages

variable [DecidableEq A]

def act (node : Node A S E O M T) (network : Network A S M) (address : A)
    (event : E) : Option (Network A S M × List (A × O)) :=
  (network.hosts address).bind fun host =>
    (node.step host event).map fun done =>
      (⟨Function.update network.hosts address (some done.1),
        network.inFlight ++ envelopes node address done.2⟩,
        done.2.map (address, ·))

/-- The outputs are those of the hosts, with their addresses.  A message to an
address without a host is lost. -/
def step (node : Node A S E O M T) (network : Network A S M) :
    NetworkEvent A E T → Option (Network A S M × List (A × O))
  | .act address event =>
      if node.own event then network.act node address event else none
  | .arrive position mark =>
      (network.inFlight[position]?).bind fun envelope =>
        if (network.hosts envelope.target).isSome then
          (network.drop position).act node envelope.target
            (node.arrival envelope.source envelope.content mark)
        else some (network.drop position, [])
  | .lose position =>
      (network.inFlight[position]?).map fun _ => (network.drop position, [])
  | .duplicate position =>
      (network.inFlight[position]?).map fun envelope =>
        ({ network with inFlight := network.inFlight ++ [envelope] }, [])

/-- The event that a step of the network is for the host at an address. -/
def hostEvents (node : Node A S E O M T) (address : A)
    (network : Network A S M) : NetworkEvent A E T → List E
  | .act other event => if other = address ∧ node.own event then [event] else []
  | .arrive position mark =>
      (network.inFlight[position]?).elim [] fun envelope =>
        if envelope.target = address then
          [node.arrival envelope.source envelope.content mark]
        else []
  | .lose _ => []
  | .duplicate _ => []

/-- What one host has put out. -/
def outputsOf (address : A) (outs : List (A × O)) : List O :=
  outs.filterMap fun out => if out.1 = address then some out.2 else none

section Step

variable {node : Node A S E O M T} {network next : Network A S M}
  {event : NetworkEvent A E T} {outs new : List (A × O)}

theorem mem_outputsOf {address : A} {out : O} :
    out ∈ outputsOf address outs ↔ (address, out) ∈ outs := by
  simp only [outputsOf, List.mem_filterMap, Option.ite_none_right_eq_some,
    Option.some.injEq]
  constructor
  · rintro ⟨⟨_, _⟩, hmem, rfl, rfl⟩
    exact hmem
  · intro hmem
    exact ⟨_, hmem, rfl, rfl⟩

theorem outputsOf_map_self (address : A) (outs : List O) :
    outputsOf address (outs.map (address, ·)) = outs := by
  simp [outputsOf, List.filterMap_map]

theorem outputsOf_map_other {address other : A} (hne : other ≠ address)
    (outs : List O) : outputsOf address (outs.map (other, ·)) = [] := by
  simp [outputsOf, hne]

/-- A step of one host. -/
theorem act_eq_some {address : A} {event : E}
    (hact : network.act node address event = some (next, new)) :
    ∃ host after out, network.hosts address = some host ∧
      node.step host event = some (after, out) ∧
      next.hosts = Function.update network.hosts address (some after) ∧
      next.inFlight = network.inFlight ++ envelopes node address out ∧
      new = out.map (address, ·) := by
  simp only [act, Option.bind_eq_some_iff, Option.map_eq_some_iff,
    Prod.mk.injEq] at hact
  obtain ⟨host, hhost, ⟨after, out⟩, hstep, rfl, rfl⟩ := hact
  exact ⟨host, after, out, hhost, hstep, rfl, rfl, rfl⟩

/-- What a step does: one host takes an event, or none does. -/
inductive Stepped (node : Node A S E O M T) (network : Network A S M)
    (event : NetworkEvent A E T) (next : Network A S M) :
    List (A × O) → Prop
  | acted (address : A) (taken : E) (host after : S) (out : List O)
      (hevents : ∀ other, network.hostEvents node other event =
        if address = other then [taken] else [])
      (hhost : network.hosts address = some host)
      (hstep : node.step host taken = some (after, out))
      (hnext : next.hosts = Function.update network.hosts address (some after))
      (hflight : ∀ envelope ∈ next.inFlight, envelope ∈ network.inFlight ∨
        envelope ∈ envelopes node address out) :
      Stepped node network event next (out.map (address, ·))
  | moved (hevents : ∀ other host, network.hosts other = some host →
        network.hostEvents node other event = [])
      (hnext : next.hosts = network.hosts)
      (hflight : ∀ envelope ∈ next.inFlight, envelope ∈ network.inFlight) :
      Stepped node network event next []

theorem stepped_of_step (hstep : network.step node event = some (next, new)) :
    Stepped node network event next new := by
  cases event with
  | act address event =>
      simp only [step, Option.ite_none_right_eq_some] at hstep
      obtain ⟨hown, hact⟩ := hstep
      obtain ⟨host, after, out, hhost, hdone, hnext, hflight, rfl⟩ :=
        act_eq_some hact
      refine .acted address event host after out ?_ hhost hdone hnext ?_
      · intro other
        simp [hostEvents, hown]
      · intro envelope henvelope
        rwa [hflight, List.mem_append] at henvelope
  | arrive position mark =>
      simp only [step, Option.bind_eq_some_iff] at hstep
      obtain ⟨envelope, henvelope, hstep⟩ := hstep
      by_cases hknown : (network.hosts envelope.target).isSome
      · rw [if_pos hknown] at hstep
        obtain ⟨host, after, out, hhost, hdone, hnext, hflight, rfl⟩ :=
          act_eq_some hstep
        refine .acted envelope.target _ host after out ?_ hhost hdone hnext ?_
        · intro other
          simp [hostEvents, henvelope]
        · intro other hother
          rw [hflight, List.mem_append] at hother
          exact hother.imp mem_drop id
      · rw [if_neg hknown, Option.some.injEq, Prod.mk.injEq] at hstep
        obtain ⟨rfl, rfl⟩ := hstep
        refine .moved ?_ rfl fun _ => mem_drop
        intro other host hhost
        have hne : envelope.target ≠ other := by
          rintro rfl
          simp [hhost] at hknown
        simp [hostEvents, henvelope, hne]
  | lose position =>
      simp only [step, Option.map_eq_some_iff, Prod.mk.injEq] at hstep
      obtain ⟨-, -, rfl, rfl⟩ := hstep
      exact .moved (fun _ _ _ => rfl) rfl fun _ => mem_drop
  | duplicate position =>
      simp only [step, Option.map_eq_some_iff, Prod.mk.injEq] at hstep
      obtain ⟨envelope, henvelope, rfl, rfl⟩ := hstep
      refine .moved (fun _ _ _ => rfl) rfl ?_
      intro other hother
      rcases List.mem_append.1 hother with hold | hnew
      · exact hold
      · rw [List.mem_singleton.1 hnew]
        exact List.mem_of_getElem? henvelope

/-- What a host takes is its own, or comes out of the network. -/
theorem receives_of_mem_hostEvents {address : A} {taken : E}
    (htaken : taken ∈ network.hostEvents node address event) :
    Receives node (· ∈ network.inFlight) address taken := by
  cases event with
  | act other event =>
      simp only [hostEvents] at htaken
      split at htaken
      · next hown =>
        rw [List.mem_singleton.1 htaken]
        exact Or.inl hown.2
      · simp at htaken
  | arrive position mark =>
      cases henvelope : network.inFlight[position]? with
      | none => simp [hostEvents, henvelope] at htaken
      | some envelope =>
          simp only [hostEvents, henvelope, Option.elim_some] at htaken
          split at htaken
          · next htarget =>
            refine Or.inr ⟨_, _, mark, List.mem_singleton.1 htaken, ?_⟩
            rw [← htarget]
            exact List.mem_of_getElem? henvelope
          · simp at htaken
  | lose position => simp [hostEvents] at htaken
  | duplicate position => simp [hostEvents] at htaken

end Step

section Run

variable {node : Node A S E O M T} {start final : Network A S M}
  {events : List (NetworkEvent A E T)} {outs : List (A × O)}

/-- No host comes up in a run. -/
theorem hosts_of_run (hrun : run (step node) start events = some (final, outs))
    {address : A} {last : S} (hlast : final.hosts address = some last) :
    ∃ first, start.hosts address = some first := by
  have hall : ∀ address, (final.hosts address).isSome →
      (start.hosts address).isSome := by
    apply run_preserves (step node) (P := fun network =>
      ∀ address, (network.hosts address).isSome →
        (start.hosts address).isSome) _ (fun _ hsome => hsome) hrun
    intro network event next new hknown hstep address hsome
    rcases stepped_of_step hstep with
      ⟨other, taken, host, after, out, -, hhost, -, hnext, -⟩ | ⟨-, hnext, -⟩
    · rw [hnext] at hsome
      by_cases hsame : address = other
      · rw [hsame]
        exact hknown other (by rw [hhost]; rfl)
      · rw [Function.update_of_ne hsame] at hsome
        exact hknown address hsome
    · rw [hnext] at hsome
      exact hknown address hsome
  exact Option.isSome_iff_exists.1 (hall address (by rw [hlast]; rfl))

/-- Only hosts put anything out. -/
theorem host_of_output (hrun : run (step node) start events = some (final, outs))
    {address : A} {out : O} (hout : (address, out) ∈ outs) :
    ∃ first, start.hosts address = some first := by
  obtain ⟨before, after, rfl⟩ := List.append_of_mem hout
  obtain ⟨past, event, later, network, next, first, left, right, rest, -, hpast,
    hstep, -, -, -⟩ := exists_step_of_output _ hrun
  have hnew : (address, out) ∈ left ++ (address, out) :: right := by simp
  generalize left ++ (address, out) :: right = new at hstep hnew
  rcases stepped_of_step hstep with
    ⟨other, taken, host, after, done, -, hhost, -, -, -⟩ | -
  · obtain ⟨sent, -, heq⟩ := List.mem_map.1 hnew
    obtain ⟨rfl, -⟩ := Prod.mk.inj heq
    exact hosts_of_run hpast hhost
  · simp at hnew

/-- Each host is where a run of its own leads, and puts out what that run puts
out. -/
theorem host_of_run (hrun : run (step node) start events = some (final, outs))
    {address : A} {first : S} (hfirst : start.hosts address = some first) :
    ∃ last, final.hosts address = some last ∧
      run node.step first
        (partEvents (step node) (hostEvents node address) start events) =
        some (last, outputsOf address outs) := by
  apply run_induction _ (motive := fun past network outs =>
    ∃ last, network.hosts address = some last ∧
      run node.step first
        (partEvents (step node) (hostEvents node address) start past) =
        some (last, outputsOf address outs)) ⟨first, hfirst, rfl⟩ _ hrun
  rintro past network outs event next new hpast ⟨last, hlast, hown⟩ hstep
  have houts : outputsOf address (outs ++ new) =
      outputsOf address outs ++ outputsOf address new := List.filterMap_append ..
  rw [houts]
  rcases stepped_of_step hstep with
    ⟨other, taken, host, after, out, hevents, hhost, hdone, hnext, -⟩ |
      ⟨hevents, hnext, -⟩
  · by_cases hother : other = address
    · subst hother
      rw [hhost, Option.some.injEq] at hlast
      subst hlast
      refine ⟨after, by rw [hnext, Function.update_self],
        run_part_concat hpast hown ?_⟩
      rw [hevents, if_pos rfl, outputsOf_map_self, run_cons_eq_some]
      exact ⟨after, out, [], hdone, rfl, (List.append_nil _).symm⟩
    · refine ⟨last, ?_, run_part_concat hpast hown ?_⟩
      · rw [hnext, Function.update_of_ne (Ne.symm hother)]
        exact hlast
      · rw [hevents, if_neg hother, outputsOf_map_other hother]
        rfl
  · refine ⟨last, by rw [hnext]; exact hlast, run_part_concat hpast hown ?_⟩
    rw [hevents address last hlast]
    rfl

/-- What is in flight was sent. -/
theorem inFlight_of_run (hempty : start.inFlight = [])
    (hrun : run (step node) start events = some (final, outs)) :
    ∀ envelope ∈ final.inFlight, Sent node outs envelope := by
  apply run_induction _ (motive := fun _ network outs =>
    ∀ envelope ∈ network.inFlight, Sent node outs envelope) _ _ hrun
  · rw [hempty]
    simp
  · intro past network outs event next new _ hsent hstep envelope henvelope
    rcases stepped_of_step hstep with
      ⟨address, taken, host, after, out, -, -, -, -, hflight⟩ | ⟨-, -, hflight⟩
    · rcases hflight envelope henvelope with hold | hnew
      · exact (hsent envelope hold).append _
      · obtain ⟨hsource, one, hone, hsends⟩ := mem_envelopes.1 hnew
        refine ⟨one, List.mem_append_right _ ?_, hsends⟩
        rw [hsource]
        exact List.mem_map_of_mem hone
    · exact (hsent envelope (hflight envelope henvelope)).append _

/-- What a host receives was sent to it. -/
theorem receives_of_run (hempty : start.inFlight = [])
    (hrun : run (step node) start events = some (final, outs)) (address : A) :
    ∀ taken ∈ partEvents (step node) (hostEvents node address) start events,
      Receives node (Sent node outs) address taken := by
  apply run_induction _ (motive := fun past _ outs =>
    ∀ taken ∈ partEvents (step node) (hostEvents node address) start past,
      Receives node (Sent node outs) address taken) (by simp [partEvents]) _ hrun
  intro past network outs event next new hpast hreceived _ taken htaken
  rw [partEvents_concat _ _ hpast, List.mem_append] at htaken
  rcases htaken with hold | hnew
  · exact (hreceived taken hold).mono fun _ hsent => hsent.append new
  · exact (receives_of_mem_hostEvents hnew).mono fun envelope henvelope =>
      (inFlight_of_run hempty hpast envelope henvelope).append new

/-- The rule for a law on messages: if each host keeps it in what it sends, as
long as what it receives keeps it, then all that is sent keeps it. -/
theorem sent_keeps {P : Envelope A M → Prop} (hempty : start.inFlight = [])
    (hhost : ∀ address first, start.hosts address = some first →
      ∀ taken last done, run node.step first taken = some (last, done) →
      (∀ event ∈ taken, Receives node P address event) →
      ∀ out ∈ done, ∀ target content, node.sends out = some (target, content) →
        P ⟨address, target, content⟩)
    (hrun : run (step node) start events = some (final, outs)) :
    ∀ envelope, Sent node outs envelope → P envelope := by
  apply run_induction _ (motive := fun _ _ outs =>
    ∀ envelope, Sent node outs envelope → P envelope) _ _ hrun
  · rintro envelope ⟨out, hout, -⟩
    simp at hout
  rintro past network outs event next new hpast hkept hstep
    ⟨source, target, content⟩ ⟨one, hone, hsends⟩
  rcases stepped_of_step hstep with
    ⟨address, taken, host, after, out, hevents, hnow, hdone, -, -⟩ | -
  · rcases List.mem_append.1 hone with hold | hnew
    · exact hkept _ ⟨one, hold, hsends⟩
    obtain ⟨sent, hout, heq⟩ := List.mem_map.1 hnew
    obtain ⟨rfl, rfl⟩ := Prod.mk.inj heq
    obtain ⟨first, hfirst⟩ := hosts_of_run hpast hnow
    obtain ⟨last, hlast, hown⟩ := host_of_run hpast hfirst
    rw [hnow, Option.some.injEq] at hlast
    subst hlast
    -- What the host took before the step, and in it, was sent before the step.
    apply hhost address first hfirst _ after _
      ((run_concat_eq_some _).2 ⟨host, _, out, hown, hdone, rfl⟩) _ sent
      (List.mem_append_right _ hout) target content hsends
    intro event' htaken
    rcases List.mem_append.1 htaken with hold | hnew
    · exact (receives_of_run hempty hpast address event' hold).mono hkept
    · have hmem : event' ∈ network.hostEvents node address event := by
        rwa [hevents, if_pos rfl]
      exact (receives_of_mem_hostEvents hmem).mono fun envelope henvelope =>
        hkept envelope (inFlight_of_run hempty hpast envelope henvelope)
  · rw [List.append_nil] at hone
    exact hkept _ ⟨one, hone, hsends⟩

end Run

end Network

end VoiceServer
