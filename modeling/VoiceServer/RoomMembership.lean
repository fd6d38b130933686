/-
Who is in the room.  `clients_` only grows: nothing calls `removeClient`, the
error branches of a session only log, and the clean-up loop of a tick erases
activity records and buffers.
-/
import VoiceServer.VoiceChatServer

namespace VoiceServer

/-- The part of a list before the first separator. -/
theorem eq_of_append_cons {A : Type*} {separator : A} {left right : List A}
    {leftRest rightRest : List A} (hleft : separator ∉ left)
    (hright : separator ∉ right)
    (heq : left ++ separator :: leftRest = right ++ separator :: rightRest) :
    left = right ∧ leftRest = rightRest := by
  induction left generalizing right with
  | nil =>
      cases right with
      | nil => simpa using heq
      | cons head rest =>
          have hhead : separator = head := (List.cons_eq_cons.1 heq).1
          simp [hhead] at hright
  | cons head rest ih =>
      cases right with
      | nil =>
          have hhead : head = separator := (List.cons_eq_cons.1 heq).1
          simp [hhead] at hleft
      | cons other more =>
          obtain ⟨rfl, hrest⟩ := List.cons_eq_cons.1 heq
          obtain ⟨rfl, hmore⟩ := ih (fun h => hleft (List.mem_cons_of_mem _ h))
            (fun h => hright (List.mem_cons_of_mem _ h)) hrest
          exact ⟨rfl, hmore⟩

theorem notMem_toDigits {c : Char} (hc : c.isDigit = false) (n : Nat) :
    c ∉ Nat.toDigits 10 n := by
  intro hmem
  have hdigit := Nat.isDigit_of_mem_toDigits (by decide) (by decide) hmem
  simp [hc] at hdigit

theorem toDigits_injective {m n : Nat}
    (h : Nat.toDigits 10 m = Nat.toDigits 10 n) : m = n := by
  have hvalue := congrArg (Nat.ofDigitChars 10 · 0) h
  simpa only [Nat.ofDigitChars_ten_toDigits] using hvalue

/-- Two endpoints never share a client key. -/
theorem Endpoint.clientKey_injective {left right : Endpoint}
    (h : left.clientKey = right.clientKey) : left = right := by
  have hlist := congrArg String.toList h
  simp only [clientKey, String.toList_append, Nat.toList_repr,
    List.append_assoc] at hlist
  have hdot := notMem_toDigits (c := '.') rfl
  have hcolon := notMem_toDigits (c := ':') rfl
  obtain ⟨ha, hlist⟩ := eq_of_append_cons (hdot _) (hdot _) hlist
  obtain ⟨hb, hlist⟩ := eq_of_append_cons (hdot _) (hdot _) hlist
  obtain ⟨hc, hlist⟩ := eq_of_append_cons (hdot _) (hdot _) hlist
  obtain ⟨hd, hport⟩ := eq_of_append_cons (hcolon _) (hcolon _) hlist
  cases left
  cases right
  simp only [mk.injEq]
  exact ⟨UInt8.toNat_inj.1 (toDigits_injective ha),
    UInt8.toNat_inj.1 (toDigits_injective hb),
    UInt8.toNat_inj.1 (toDigits_injective hc),
    UInt8.toNat_inj.1 (toDigits_injective hd),
    UInt16.toNat_inj.1 (toDigits_injective hport)⟩

/-- The uuids of the accepted connections, in the order of their sessions. -/
def acceptedUuids (history : List ServerEvent) : List String :=
  history.filterMap fun event =>
    match event with
    | .accepted uuid => some uuid
    | _ => none

/-- A datagram from the endpoint has been handed to `handle_receive`. -/
def SentDatagram (history : List ServerEvent) (endpoint : Endpoint) : Prop :=
  ∃ now bytes, .received now endpoint bytes ∈ history ∧ bytes ≠ []

/-- `a` stands at `index`, and nowhere after it. -/
def LastAt {A : Type*} (list : List A) (index : Nat) (a : A) : Prop :=
  list[index]? = some a ∧ a ∉ list.drop (index + 1)

section LastAt

variable {A : Type*} {list : List A} {index : Nat} {a last : A}

theorem LastAt.mem (h : LastAt list index a) : a ∈ list :=
  List.mem_of_getElem? h.1

theorem LastAt.lt (h : LastAt list index a) : index < list.length :=
  (List.getElem?_eq_some_iff.1 h.1).1

theorem lastAt_concat :
    LastAt (list ++ [last]) index a ↔
      (index = list.length ∧ a = last) ∨ (LastAt list index a ∧ a ≠ last) := by
  unfold LastAt
  rcases Nat.lt_trichotomy index list.length with hlt | rfl | hgt
  · have hdrop : index + 1 ≤ list.length := hlt
    simp [List.getElem?_append_left hlt, List.drop_append_of_le_length hdrop,
      hlt.ne, and_assoc]
  · simp [eq_comm]
  · have hlength : (list ++ [last]).length ≤ index := by
      rw [List.length_append]
      exact hgt
    simp [List.getElem?_eq_none hlength, hgt.ne', List.getElem?_eq_none hgt.le]

theorem exists_lastAt (hmem : a ∈ list) : ∃ index, LastAt list index a := by
  induction list using List.reverseRecOn with
  | nil => simp at hmem
  | append_singleton rest last ih =>
      by_cases hlast : a = last
      · exact ⟨rest.length, lastAt_concat.2 (.inl ⟨rfl, hlast⟩)⟩
      · have hrest : a ∈ rest := by simpa [hlast] using hmem
        obtain ⟨index, hindex⟩ := ih hrest
        exact ⟨index, lastAt_concat.2 (.inr ⟨hindex, hlast⟩)⟩

end LastAt

/-- Every connection that has not lost its uuid to a later one went without a
failure, and every endpoint that joined has sent something recently. -/
structure NobodyLeft (history : List ServerEvent) (now : Int) : Prop where
  webSocket : ∀ index uuid, LastAt (acceptedUuids history) index uuid →
    ∀ time completion, .completed index time completion ∈ history →
      completion.failed = false
  udp : ∀ endpoint, endpoint.clientKey ∉ acceptedUuids history →
    SentDatagram history endpoint →
    ∃ time bytes, .received time endpoint bytes ∈ history ∧
      now - time ≤ activityTimeout

/-- The logs of the sessions hold a line exactly for the sessions with a
failed completion. -/
structure Logged (logs : List (List SessionError))
    (history : List ServerEvent) : Prop where
  length : logs.length = (acceptedUuids history).length
  lt : ∀ index now completion,
    .completed index now completion ∈ history → index < logs.length
  errors : ∀ index log, logs[index]? = some log →
    (log = [] ↔ ∀ now completion,
      .completed index now completion ∈ history → completion.failed = false)

/-- The entries of `clients_` are the connections and endpoints that joined. -/
structure Joined (clients : AList fun _ : String => Client)
    (history : List ServerEvent) : Prop where
  webSocket : ∀ id index, clients.lookup id = some (.webSocket index) ↔
    LastAt (acceptedUuids history) index id
  udp : ∀ id endpoint, clients.lookup id = some (.udp endpoint) ↔
    endpoint.clientKey = id ∧ id ∉ acceptedUuids history ∧
      SentDatagram history endpoint

section History

variable {history : List ServerEvent} {event : ServerEvent}

theorem acceptedUuids_concat (uuid : String) :
    acceptedUuids (history ++ [.accepted uuid]) =
      acceptedUuids history ++ [uuid] := by
  simp [acceptedUuids]

theorem acceptedUuids_concat_other (hother : ∀ uuid, event ≠ .accepted uuid) :
    acceptedUuids (history ++ [event]) = acceptedUuids history := by
  cases event with
  | accepted uuid => exact absurd rfl (hother uuid)
  | _ => simp [acceptedUuids]

theorem sentDatagram_concat_received {now : Int} {endpoint other : Endpoint}
    {bytes : List UInt8} :
    SentDatagram (history ++ [.received now endpoint bytes]) other ↔
      SentDatagram history other ∨ (other = endpoint ∧ bytes ≠ []) := by
  simp only [SentDatagram, List.mem_append, List.mem_singleton,
    ServerEvent.received.injEq]
  constructor
  · rintro ⟨time, sent, hmem | ⟨-, rfl, rfl⟩, hne⟩
    · exact .inl ⟨time, sent, hmem, hne⟩
    · exact .inr ⟨rfl, hne⟩
  · rintro (⟨time, sent, hmem, hne⟩ | ⟨rfl, hne⟩)
    · exact ⟨time, sent, .inl hmem, hne⟩
    · exact ⟨now, bytes, .inr ⟨rfl, rfl, rfl⟩, hne⟩

theorem sentDatagram_concat_other {other : Endpoint}
    (hother : ∀ now endpoint bytes, event ≠ .received now endpoint bytes) :
    SentDatagram (history ++ [event]) other ↔ SentDatagram history other := by
  cases event with
  | received now endpoint bytes => exact absurd rfl (hother now endpoint bytes)
  | _ => simp [SentDatagram]

end History

section Logs

variable {logs : List (List SessionError)} {history : List ServerEvent}

theorem Logged.accepted (hlogged : Logged logs history) (uuid : String) :
    Logged (logs ++ [[]]) (history ++ [.accepted uuid]) := by
  refine ⟨?_, ?_, ?_⟩
  · simp [acceptedUuids_concat, hlogged.length]
  · intro index now completion hmem
    have hold : .completed index now completion ∈ history := by
      simpa using hmem
    exact (hlogged.lt index now completion hold).trans (by simp)
  · intro index log hlog
    simp only [List.mem_append, List.mem_singleton, reduceCtorEq, or_false]
    by_cases hindex : index < logs.length
    · rw [List.getElem?_append_left hindex] at hlog
      exact hlogged.errors index log hlog
    · -- The new session: no completion can have named it.
      have hnone : ∀ now completion,
          .completed index now completion ∉ history :=
        fun now completion hmem => hindex (hlogged.lt index now completion hmem)
      have hempty : log = [] := by
        rw [List.getElem?_append_right (Nat.not_lt.1 hindex)] at hlog
        simpa using List.mem_of_getElem? hlog
      simp [hempty, hnone]

theorem Logged.completed (hlogged : Logged logs history) {index : Nat}
    {before after : List SessionError} {completion : Completion} (now : Int)
    (hbefore : logs[index]? = some before)
    (hafter : after = [] ↔ before = [] ∧ completion.failed = false) :
    Logged (logs.set index after)
      (history ++ [.completed index now completion]) := by
  have hindex : index < logs.length :=
    (List.getElem?_eq_some_iff.1 hbefore).1
  refine ⟨?_, ?_, ?_⟩
  · rw [List.length_set, hlogged.length, acceptedUuids_concat_other (by simp)]
  · intro other time done hmem
    rw [List.length_set]
    rcases List.mem_append.1 hmem with hmem | hmem
    · exact hlogged.lt other time done hmem
    · simp only [List.mem_singleton, ServerEvent.completed.injEq] at hmem
      exact hmem.1 ▸ hindex
  · intro other log hlog
    rw [List.getElem?_set] at hlog
    simp only [List.mem_append, List.mem_singleton,
      ServerEvent.completed.injEq]
    by_cases hsame : index = other
    · subst hsame
      obtain rfl : after = log := by simpa [hindex] using hlog
      rw [hafter, hlogged.errors index before hbefore]
      constructor
      · rintro ⟨hold, hnew⟩ time done (hmem | ⟨-, -, rfl⟩)
        · exact hold time done hmem
        · exact hnew
      · intro hall
        exact ⟨fun time done hmem => hall time done (.inl hmem),
          hall now completion (.inr ⟨rfl, rfl, rfl⟩)⟩
    · rw [if_neg hsame] at hlog
      rw [hlogged.errors other log hlog]
      have hne : ¬ other = index := fun h => hsame h.symm
      simp only [hne, false_and, or_false]

/-- Events that neither accept nor complete leave the logs. -/
theorem Logged.other (hlogged : Logged logs history) {event : ServerEvent}
    (haccepted : ∀ uuid, event ≠ .accepted uuid)
    (hcompleted : ∀ index now completion,
      event ≠ .completed index now completion) :
    Logged logs (history ++ [event]) := by
  have hmem : ∀ index now completion,
      .completed index now completion ∈ history ++ [event] ↔
        .completed index now completion ∈ history := by
    intro index now completion
    rw [List.mem_append, List.mem_singleton,
      or_iff_left (hcompleted index now completion).symm]
  refine ⟨?_, ?_, ?_⟩
  · rw [hlogged.length, acceptedUuids_concat_other haccepted]
  · intro index now completion hold
    exact hlogged.lt index now completion ((hmem ..).1 hold)
  · intro index log hlog
    simp only [hmem]
    exact hlogged.errors index log hlog

end Logs

section Members

variable {clients : AList fun _ : String => Client}
  {history : List ServerEvent}

theorem Joined.lookup_accepted (hjoined : Joined clients history) {id : String}
    (hid : id ∈ acceptedUuids history) :
    ∃ index, clients.lookup id = some (.webSocket index) := by
  obtain ⟨index, hindex⟩ := exists_lastAt hid
  exact ⟨index, (hjoined.webSocket id index).2 hindex⟩

theorem Joined.accepted (hjoined : Joined clients history) (uuid : String) :
    Joined (clients.insert uuid (.webSocket (acceptedUuids history).length))
      (history ++ [.accepted uuid]) := by
  refine ⟨fun id index => ?_, fun id endpoint => ?_⟩
  · rw [acceptedUuids_concat, lastAt_concat]
    by_cases hid : id = uuid
    · subst hid
      simp [eq_comm]
    · rw [AList.lookup_insert_ne hid, hjoined.webSocket]
      simp [hid]
  · rw [acceptedUuids_concat, sentDatagram_concat_other (by simp)]
    by_cases hid : id = uuid
    · subst hid
      simp
    · rw [AList.lookup_insert_ne hid, hjoined.udp]
      simp [hid]

/-- An endpoint not yet known joins. -/
theorem Joined.received (hjoined : Joined clients history) {now : Int}
    {endpoint : Endpoint} {bytes : List UInt8} (hne : bytes ≠ [])
    (hunknown : clients.lookup endpoint.clientKey = none) :
    Joined (clients.insert endpoint.clientKey (.udp endpoint))
      (history ++ [.received now endpoint bytes]) := by
  have hfresh : endpoint.clientKey ∉ acceptedUuids history := by
    intro hid
    obtain ⟨index, hindex⟩ := hjoined.lookup_accepted hid
    simp [hunknown] at hindex
  refine ⟨fun id index => ?_, fun id other => ?_⟩
  · rw [acceptedUuids_concat_other (by simp)]
    by_cases hid : id = endpoint.clientKey
    · subst hid
      have hnot : ¬ LastAt (acceptedUuids history) index endpoint.clientKey :=
        fun hlast => hfresh hlast.mem
      simp [hnot]
    · rw [AList.lookup_insert_ne hid, hjoined.webSocket]
  · rw [acceptedUuids_concat_other (by simp), sentDatagram_concat_received]
    by_cases hid : id = endpoint.clientKey
    · subst hid
      rw [AList.lookup_insert, Option.some.injEq, Client.udp.injEq]
      constructor
      · rintro rfl
        exact ⟨rfl, hfresh, .inr ⟨rfl, hne⟩⟩
      · rintro ⟨hkey, -, -⟩
        exact (Endpoint.clientKey_injective hkey).symm
    · rw [AList.lookup_insert_ne hid, hjoined.udp]
      have hother : other.clientKey = id → other ≠ endpoint := by
        rintro rfl rfl
        exact hid rfl
      constructor
      · rintro ⟨hkey, hnot, hsent⟩
        exact ⟨hkey, hnot, .inl hsent⟩
      · rintro ⟨hkey, hnot, hsent | ⟨hsame, -⟩⟩
        · exact ⟨hkey, hnot, hsent⟩
        · exact absurd hsame (hother hkey)

/-- The history may grow by what concerns members who are there already. -/
theorem Joined.other (hjoined : Joined clients history) {event : ServerEvent}
    (haccepted : ∀ uuid, event ≠ .accepted uuid)
    (hreceived : ∀ now endpoint bytes,
      event = .received now endpoint bytes → bytes ≠ [] →
      clients.lookup endpoint.clientKey ≠ none) :
    Joined clients (history ++ [event]) := by
  refine ⟨fun id index => ?_, fun id other => ?_⟩
  · rw [acceptedUuids_concat_other haccepted, hjoined.webSocket]
  · rw [acceptedUuids_concat_other haccepted, hjoined.udp]
    constructor
    · rintro ⟨hkey, hnot, now, bytes, hmem, hne⟩
      exact ⟨hkey, hnot, now, bytes, List.mem_append_left _ hmem, hne⟩
    · rintro ⟨hkey, hnot, now, bytes, hmem, hne⟩
      rcases List.mem_append.1 hmem with hmem | hmem
      · exact ⟨hkey, hnot, now, bytes, hmem, hne⟩
      · -- Whoever holds the key of a known endpoint is that endpoint.
        have hknown := hreceived now other bytes
          (List.mem_singleton.1 hmem).symm hne
        obtain ⟨client, hclient⟩ := Option.ne_none_iff_exists'.1 hknown
        rw [hkey] at hclient
        cases client with
        | webSocket index =>
            exact absurd ((hjoined.webSocket id index).1 hclient).mem hnot
        | udp holder =>
            obtain ⟨hholder, -, hsent⟩ := (hjoined.udp id holder).1 hclient
            obtain rfl : holder = other :=
              Endpoint.clientKey_injective (hholder.trans hkey.symm)
            exact ⟨hkey, hnot, hsent⟩

end Members

namespace WebSocketSession

/-- Exactly the failed completions are logged. -/
theorem errors_of_stepped {session next : WebSocketSession}
    {completion : Completion}
    (hstep : Stepped session (.complete completion) next) :
    next.errors = [] ↔ session.errors = [] ∧ completion.failed = false := by
  cases hstep with
  | answered request response hop hkey => simp [Completion.failed, hkey]
  | readFailed op _ error hop hfailed hread => simp [hfailed]
  | _ => simp [Completion.failed]

theorem errors_start (uuid : String) (useSsl : Bool) :
    (new uuid useSsl).start.errors = [] := by
  cases useSsl <;> rfl

end WebSocketSession

namespace VoiceChatServer

/-- A peer that is still there: its session had no error, or it sent a datagram
within the activity timeout. -/
def Live (server : VoiceChatServer) (history : List ServerEvent) (now : Int) :
    Client → Prop
  | .webSocket index => ∃ session, server.sessions[index]? = some session ∧
      session.errors = []
  | .udp endpoint => ∃ time bytes, .received time endpoint bytes ∈ history ∧
      now - time ≤ activityTimeout

/-- Every entry of `clients_` is a live peer. -/
def MembersLive (server : VoiceChatServer) (history : List ServerEvent)
    (now : Int) : Prop :=
  ∀ id client, server.room.clients.lookup id = some client →
    server.Live history now client

structure Registered (server : VoiceChatServer) (history : List ServerEvent) :
    Prop where
  room : server.RoomTracked
  logs : Logged (server.sessions.map (·.errors)) history
  clients : Joined server.room.clients history

/-- Since nobody is ever taken out, the members are live only if nobody who
joined has left. -/
theorem Registered.membersLive_iff {server : VoiceChatServer}
    {history : List ServerEvent} (hregistered : server.Registered history)
    (now : Int) :
    server.MembersLive history now ↔ NobodyLeft history now := by
  constructor
  · intro hlive
    refine ⟨fun index uuid hlast => ?_, fun endpoint hnot hsent => ?_⟩
    · obtain ⟨session, hsession, herrors⟩ := hlive uuid _
        ((hregistered.clients.webSocket uuid index).2 hlast)
      have hlog : (server.sessions.map (·.errors))[index]? =
          some session.errors := by
        rw [List.getElem?_map, hsession]
        rfl
      exact (hregistered.logs.errors index _ hlog).1 herrors
    · exact hlive _ _ ((hregistered.clients.udp _ endpoint).2
        ⟨rfl, hnot, hsent⟩)
  · intro hnobody id client hlookup
    cases client with
    | webSocket index =>
        have hlast := (hregistered.clients.webSocket id index).1 hlookup
        have hindex : index < server.sessions.length := by
          rw [← List.length_map (·.errors), hregistered.logs.length]
          exact hlast.lt
        have hsession := List.getElem?_eq_getElem hindex
        refine ⟨server.sessions[index], hsession, ?_⟩
        refine (hregistered.logs.errors index _ ?_).2
          (hnobody.webSocket index id hlast)
        rw [List.getElem?_map, hsession]
        rfl
    | udp endpoint =>
        obtain ⟨rfl, hnot, hsent⟩ :=
          (hregistered.clients.udp id endpoint).1 hlookup
        exact hnobody.udp endpoint hnot hsent

theorem errors_sendToSession (sessions : List WebSocketSession)
    (delivery : Delivery String Client) :
    (sendToSession sessions delivery).map (·.errors) =
      sessions.map (·.errors) := by
  apply List.ext_getElem?
  intro index
  rw [List.getElem?_map, List.getElem?_map, getElem?_sendToSession]
  by_cases hclient : delivery.client = .webSocket index
  · rw [if_pos hclient, Option.map_map]
    congr 1
    funext session
    exact (WebSocketSession.send_frame session _ _).2.1
  · rw [if_neg hclient]

theorem errors_foldl_send (sessions : List WebSocketSession)
    (deliveries : List (Delivery String Client)) :
    (deliveries.foldl sendToSession sessions).map (·.errors) =
      sessions.map (·.errors) := by
  induction deliveries generalizing sessions with
  | nil => rfl
  | cons head rest ih =>
      rw [List.foldl_cons, ih, errors_sendToSession]

theorem registered_new (useSsl : Bool) : (new useSsl).Registered [] where
  room := roomTracked_new useSsl
  logs := ⟨rfl, by simp, by simp [new]⟩
  clients := ⟨by simp [new, RoomManager.new, LastAt, acceptedUuids],
    by simp [new, RoomManager.new, SentDatagram]⟩

section Runs

variable {generateWebsocketAccept : List UInt8 → List UInt8}
  {server next : VoiceChatServer} {out : List Datagram}
  {history : List ServerEvent}

/-- A tick changes nobody's membership and logs nothing. -/
theorem Registered.tick (hregistered : server.Registered history) {now : Int}
    {walk : Walk String} (hstepped : Stepped server (.mixed now walk) next) :
    next.Registered history := by
  have hroom := hregistered.room.step hstepped
  cases hstepped with
  | mixed _ _ room deliveries htick =>
      obtain ⟨rounds, htracks⟩ := hregistered.room
      have hticked := RoomManager.ticked_of_step htracks.recorded htick
      refine ⟨hroom, ?_, ?_⟩
      · rw [errors_foldl_send]
        exact hregistered.logs
      · rw [hticked.clients_eq]
        exact hregistered.clients

theorem joined_handleReceive (hjoined : Joined server.room.clients history)
    (now : Int) (endpoint : Endpoint) {bytes : List UInt8} (hne : bytes ≠ [])
    (stored : List UInt8) :
    Joined (server.handleReceive now endpoint stored).room.clients
      (history ++ [.received now endpoint bytes]) := by
  cases hclient : server.room.getClient endpoint.clientKey with
  | none =>
      simp only [handleReceive, hclient]
      exact hjoined.received hne hclient
  | some client =>
      simp only [handleReceive, hclient]
      refine Joined.other hjoined (by simp) ?_
      rintro _ other _ heq - hnone
      obtain rfl : endpoint = other := (ServerEvent.received.inj heq).2.1
      exact absurd (hnone.symm.trans hclient) (by simp)

theorem Registered.step (hregistered : server.Registered history)
    {event : ServerEvent} (hstepped : Stepped server event next) :
    next.Registered (history ++ [event]) := by
  have hroom := hregistered.room.step hstepped
  have hlogs := hregistered.logs
  have hclients := hregistered.clients
  cases hstepped with
  | accepted uuid =>
      refine ⟨hroom, ?_, ?_⟩
      · have hnew := hlogs.accepted uuid
        rw [← WebSocketSession.errors_start uuid server.useSsl] at hnew
        simpa [doAccept, addWebsocketUser, addClient] using hnew
      · have hlength : server.sessions.length =
            (acceptedUuids history).length := by
          rw [← hlogs.length, List.length_map]
        have hnew := hclients.accepted uuid
        rw [← hlength] at hnew
        exact hnew
  | completed index now completion before after calls hbefore hafter =>
      refine ⟨hroom, ?_, ?_⟩
      · rw [List.map_set]
        refine hlogs.completed now ?_
          (WebSocketSession.errors_of_stepped hafter)
        rw [List.getElem?_map, hbefore]
        rfl
      · rw [clients_onMessage]
        exact hclients.other (by simp) (by simp)
  | received now endpoint bytes hne =>
      refine ⟨hroom, ?_, joined_handleReceive hclients now endpoint hne _⟩
      rw [sessions_handleReceive]
      exact hlogs.other (by simp) (by simp)
  | receivedEmpty now endpoint =>
      refine ⟨hroom, hlogs.other (by simp) (by simp),
        hclients.other (by simp) ?_⟩
      rintro _ _ _ heq hne
      exact absurd (ServerEvent.received.inj heq).2.2.symm hne
  | mixed now walk room deliveries htick =>
      have hnext := hregistered.tick (.mixed now walk room deliveries htick)
      exact ⟨hroom, hnext.logs.other (by simp) (by simp),
        hnext.clients.other (by simp) (by simp)⟩
  | _ =>
      -- Nothing but the history changes.
      exact ⟨hroom, hlogs.other (by simp) (by simp),
        hclients.other (by simp) (by simp)⟩

theorem registered_of_run {useSsl : Bool} {final : VoiceChatServer}
    (hrun : run (VoiceChatServer.step generateWebsocketAccept) (new useSsl)
      history = some (final, out)) : final.Registered history :=
  run_induction _ (motive := fun past server _ => server.Registered past)
    (registered_new useSsl)
    (fun _ _ _ _ _ _ _ hpast hstep => hpast.step (stepped_of_step hstep))
    hrun

theorem registered_after_tick {useSsl : Bool} {now : Int} {walk : Walk String}
    (hrun : run (VoiceChatServer.step generateWebsocketAccept) (new useSsl)
      (history ++ [.mixed now walk]) = some (next, out)) :
    next.Registered history := by
  obtain ⟨server, first, later, hpast, hstep, -⟩ :=
    (run_concat_eq_some _).1 hrun
  exact (registered_of_run hpast).tick (stepped_of_step hstep)

/-- Right after every tick of a run the members are live peers exactly when at
no tick of the run somebody who joined has left. -/
theorem members_live_iff {useSsl : Bool} {events : List ServerEvent}
    {final : VoiceChatServer} {sent : List Datagram}
    (hrun : run (VoiceChatServer.step generateWebsocketAccept) (new useSsl)
      events = some (final, sent)) :
    (∀ past now walk, past ++ [.mixed now walk] <+: events →
      ∀ server out, run (VoiceChatServer.step generateWebsocketAccept)
          (new useSsl) (past ++ [.mixed now walk]) = some (server, out) →
        server.MembersLive past now) ↔
      ∀ past now walk, past ++ [.mixed now walk] <+: events →
        NobodyLeft past now := by
  constructor
  · intro hlive past now walk hpast
    obtain ⟨server, out, hserver⟩ := run_isPrefix hrun hpast
    exact ((registered_after_tick hserver).membersLive_iff now).1
      (hlive past now walk hpast server out hserver)
  · intro hnobody past now walk hpast server out hserver
    exact ((registered_after_tick hserver).membersLive_iff now).2
      (hnobody past now walk hpast)

end Runs

/-- A connection is accepted and its peer closes it before the upgrade request;
the next tick is the first after the failed read. -/
def closedRun : List ServerEvent :=
  [.accepted "a", .completed 0 5000000 (.request none),
    .mixed 20000000 ⟨["a"], [], []⟩]

theorem members_live_iff_closed :
    (∀ past now walk, past ++ [.mixed now walk] <+: closedRun →
      ∀ server out, run (step WebSocketSession.sampleAccept) (new false)
          (past ++ [.mixed now walk]) = some (server, out) →
        server.MembersLive past now) ↔
      ∀ past now walk, past ++ [.mixed now walk] <+: closedRun →
        NobodyLeft past now := by
  have hsome : (run (step WebSocketSession.sampleAccept) (new false)
      closedRun).isSome = true := by
    decide +kernel
  obtain ⟨⟨final, sent⟩, hrun⟩ := Option.isSome_iff_exists.1 hsome
  exact members_live_iff hrun

theorem members_not_live :
    ¬ ∀ events final sent,
      run (step WebSocketSession.sampleAccept) (new false) events =
        some (final, sent) →
      ∀ past now walk, past ++ [.mixed now walk] = events →
        final.MembersLive past now := by
  intro hclaim
  have hleft : (run (step WebSocketSession.sampleAccept) (new false)
      closedRun).map (fun result => (result.1.room.clients.lookup "a",
        result.1.sessions.map (·.errors))) =
      some (some (.webSocket 0), [[.handshakeRead]]) := by
    decide +kernel
  obtain ⟨⟨final, sent⟩, hrun, hleft⟩ := Option.map_eq_some_iff.1 hleft
  obtain ⟨hlookup, hlogs⟩ := Prod.mk.inj hleft
  have hlive := hclaim closedRun final sent hrun
    [.accepted "a", .completed 0 5000000 (.request none)] _ _ rfl
  obtain ⟨session, hsession, herrors⟩ := hlive "a" _ hlookup
  have hlog : (final.sessions.map (·.errors))[0]? = some session.errors := by
    rw [List.getElem?_map, hsession]
    rfl
  rw [show final.sessions.map (·.errors) = _ from hlogs, herrors] at hlog
  simp at hlog

end VoiceChatServer

end VoiceServer
