import RedisInC.Connection
import RedisInC.Grammar
import RedisInC.Reference
import RedisInC.Transition

/-!
# What the server is for

A service without sockets, buffers and memory: one map, and clients that send bytes
and are sent bytes. Requests are executed one at a time, each at one point of the run.

* `Peer`, `Service` — a client as the service knows it, and the service.
* `Action`, `Service.Step` — what can happen.
* `Peer.Books` — what the service owes a client, kept by every step (`books_step`).
* `HistoryRun`, `history_run` — the requests of all clients, in the order of their
  execution, are a history of the map.
* `moved_run` — what has come from a client, and gone to it, is what the actions say.
-/

namespace RedisInC

open Transition

/-- A client. -/
structure Peer where
  /-- all that has been read from it -/
  received : Bytes
  /-- of this, what no request has been taken from yet -/
  pending : Bytes
  /-- all that has been sent to it -/
  sent : Bytes
  /-- what is still to be sent -/
  unsent : Bytes
  /-- no more requests are taken from it -/
  closing : Bool
  /-- it has been disconnected -/
  gone : Bool

/-- A client that has just been connected. -/
def Peer.fresh : Peer := ⟨[], [], [], [], false, false⟩

/-- The service. -/
structure Service where
  /-- the keys and their values -/
  map : RefMap
  /-- the clients in the order of their connection, those that have left included -/
  peers : List Peer
  /-- some request has been refused for want of memory -/
  starved : Bool

/-- What can happen. Clients go by number. -/
inductive Action : Type
  /-- a new client -/
  | connect
  /-- bytes from a client -/
  | receive (n : ℕ) (bytes : Bytes)
  /-- a request is executed and answered -/
  | execute (n : ℕ) (argv : List Bytes) (reply : Reply)
  /-- a request is executed, but its reply comes out incomplete -/
  | abandon (n : ℕ) (argv : List Bytes) (reply : Reply)
  /-- a client is told about an error outside any request -/
  | complain (n : ℕ) (msg : Bytes)
  /-- bytes to a client -/
  | send (n : ℕ) (bytes : Bytes)
  /-- a client leaves, or is made to -/
  | disconnect (n : ℕ)

/-- No request can ever be read off this input. -/
def Hopeless (input : Bytes) : Prop :=
  ∀ t argv text, Frame argv text → ¬ text <+: input ++ t

namespace Service

/-- A request is executed: the reference machine says what becomes of the map and which
replies there are. For want of memory it can be refused instead. -/
inductive Executes (v : Service) (argv : List Bytes) : Reply → RefMap → Bool → Prop
  /-- as the machine says -/
  | done {r : Reply} (reply : (refStep v.map argv).2 r) :
      Executes v argv r (refStep v.map argv).1 v.starved
  /-- refused -/
  | starved : Executes v argv outOfMemory v.map true

/-- One step. -/
inductive Step : Service → Action → Service → Prop
  | connect {v : Service} : Step v .connect { v with peers := v.peers ++ [.fresh] }
  | receive {v : Service} {n : ℕ} {p : Peer} (bytes : Bytes) (peer : v.peers[n]? = some p)
      (here : p.gone = false) (normal : p.closing = false) :
      Step v (.receive n bytes) { v with
        peers := v.peers.set n
          { p with received := p.received ++ bytes, pending := p.pending ++ bytes } }
  | execute {v : Service} {n : ℕ} {p : Peer} {argv : List Bytes} {text rest : Bytes} {r : Reply}
      {map : RefMap} {starved : Bool} (peer : v.peers[n]? = some p) (here : p.gone = false)
      (normal : p.closing = false) (frame : Frame argv text) (pending : p.pending = text ++ rest)
      (executes : v.Executes argv r map starved)
      (room : p.unsent.length + r.encode.length ≤ BYTEBUF_MAX) :
      Step v (.execute n argv r)
        ⟨map, v.peers.set n { p with pending := rest, unsent := p.unsent ++ r.encode }, starved⟩
  | abandon {v : Service} {n : ℕ} {p : Peer} {argv : List Bytes} {text rest part : Bytes}
      {r : Reply} {map : RefMap} {starved : Bool} (peer : v.peers[n]? = some p)
      (here : p.gone = false) (normal : p.closing = false) (frame : Frame argv text)
      (pending : p.pending = text ++ rest) (executes : v.Executes argv r map starved)
      (part_of : part <+: r.encode) :
      Step v (.abandon n argv r)
        ⟨map, v.peers.set n { p with unsent := p.unsent ++ part, gone := true }, starved⟩
  | complain {v : Service} {n : ℕ} {p : Peer} {msg part : Bytes} (peer : v.peers[n]? = some p)
      (here : p.gone = false) (part_of : part <+: (Reply.error msg).encode)
      (reason : msg ∈ readErrors ∨ msg = ascii "ERR Protocol error" ∧ Hopeless p.pending) :
      Step v (.complain n msg)
        { v with peers := v.peers.set n { p with unsent := p.unsent ++ part, closing := true } }
  | send {v : Service} {n : ℕ} {p : Peer} {bytes rest : Bytes} (peer : v.peers[n]? = some p)
      (here : p.gone = false) (unsent : p.unsent = bytes ++ rest) :
      Step v (.send n bytes)
        { v with peers := v.peers.set n { p with sent := p.sent ++ bytes, unsent := rest } }
  | disconnect {v : Service} {n : ℕ} {p : Peer} (peer : v.peers[n]? = some p) :
      Step v (.disconnect n) { v with peers := v.peers.set n { p with gone := true } }

/-- The service as a system. -/
def system : System Service Action := ⟨Step⟩

/-- Before the first client. -/
def initial (map : RefMap) : Service := ⟨map, [], false⟩

end Service

/-! ## One client -/

/-- The requests of a client that have been answered, with their replies. -/
def Action.answered (n : ℕ) : Action → List (List Bytes × Reply)
  | .execute k argv r => if k = n then [(argv, r)] else []
  | _ => []

/-- The requests of a client that were answered in a run. -/
def answeredTo (n : ℕ) (as : List Action) : List (List Bytes × Reply) :=
  as.flatMap (Action.answered n)

/-- The client an action is about. -/
def Action.about : Action → Option ℕ
  | .connect => none
  | .receive n _ => some n
  | .execute n _ _ => some n
  | .abandon n _ _ => some n
  | .complain n _ => some n
  | .send n _ => some n
  | .disconnect n => some n

theorem answered_of_about {a : Action} {n : ℕ} (h : a.about ≠ some n) : a.answered n = [] := by
  cases a with
  | execute k argv r => exact if_neg fun hk => h (congrArg some hk)
  | connect => rfl
  | receive k bytes => rfl
  | abandon k argv r => rfl
  | complain k msg => rfl
  | send k bytes => rfl
  | disconnect k => rfl

/-- **What the service owes a client**: every byte received is in a request that was
answered, or pending; and what was sent and is to be sent are the answers, in order,
and nothing else unless the client is on its way out. -/
structure Peer.Books (p : Peer) (answers : List (List Bytes × Reply)) : Prop where
  /-- what was received -/
  received_eq : ∃ texts, List.Forall₂ (fun a text => Frame a.1 text) answers texts ∧
    p.received = texts.flatten ++ p.pending
  /-- what goes out -/
  sent_eq : ∃ tail, p.sent ++ p.unsent = answers.flatMap (fun a => a.2.encode) ++ tail ∧
    (p.closing = false → p.gone = false → tail = [])

theorem Peer.books_fresh : Peer.fresh.Books [] :=
  ⟨⟨[], .nil, rfl⟩, [], rfl, fun _ _ => rfl⟩

/-- The books of all clients. -/
def Service.Balanced (as : List Action) (v : Service) : Prop :=
  (∀ n (p : Peer), v.peers[n]? = some p → p.Books (answeredTo n as)) ∧
    ∀ n, v.peers.length ≤ n → answeredTo n as = []

namespace Service

variable {v v' : Service} {as : List Action}

/-- An action about one client, whose books balance afterwards. -/
theorem Balanced.set {n : ℕ} {p : Peer} {a : Action} {map : RefMap} {starved : Bool}
    (hb : v.Balanced as) (hpeer : v.peers[n]? = some p) (habout : a.about = some n) {q : Peer}
    (hq : p.Books (answeredTo n as) → q.Books (answeredTo n as ++ a.answered n)) :
    (⟨map, v.peers.set n q, starved⟩ : Service).Balanced (as ++ [a]) := by
  obtain ⟨hbooks, hnone⟩ := hb
  have hlt : n < v.peers.length := (List.getElem?_eq_some_iff.mp hpeer).1
  have hsplit : ∀ k, answeredTo k (as ++ [a]) = answeredTo k as ++ a.answered k := fun k => by
    simp [answeredTo]
  have hother : ∀ k, k ≠ n → answeredTo k (as ++ [a]) = answeredTo k as := fun k hk => by
    rw [hsplit, answered_of_about (by rw [habout]; simpa using Ne.symm hk), List.append_nil]
  constructor
  · intro k r hr
    by_cases hk : k = n
    · subst hk
      rw [List.getElem?_set_self hlt] at hr
      cases hr
      rw [hsplit]
      exact hq (hbooks k p hpeer)
    · rw [List.getElem?_set_ne (Ne.symm hk)] at hr
      rw [hother k hk]
      exact hbooks k r hr
  · intro k hk
    rw [List.length_set] at hk
    rw [hother k (by omega)]
    exact hnone k hk

/-- The same for an action that answers nothing. -/
theorem Balanced.keep {n : ℕ} {p : Peer} {a : Action} {map : RefMap} {starved : Bool}
    (hb : v.Balanced as) (hpeer : v.peers[n]? = some p) (habout : a.about = some n)
    (hnone : a.answered n = []) {q : Peer}
    (hq : p.Books (answeredTo n as) → q.Books (answeredTo n as)) :
    (⟨map, v.peers.set n q, starved⟩ : Service).Balanced (as ++ [a]) := by
  refine hb.set hpeer habout ?_
  rwa [hnone, List.append_nil]

/-- **Every step keeps the books.** -/
theorem books_step {a : Action} (hb : v.Balanced as) (h : Step v a v') :
    v'.Balanced (as ++ [a]) := by
  cases h with
  | connect =>
    obtain ⟨hbooks, hnone⟩ := hb
    have hsame : ∀ k, answeredTo k (as ++ [.connect]) = answeredTo k as := fun k => by
      simp [answeredTo, Action.answered]
    constructor
    · intro k r hr
      rw [hsame]
      rcases Nat.lt_trichotomy k v.peers.length with hlt | heq | hgt
      · rw [List.getElem?_append_left hlt] at hr
        exact hbooks k r hr
      · rw [heq, List.getElem?_append_right (Nat.le_refl _), Nat.sub_self] at hr
        cases hr
        rw [hnone k (Nat.le_of_eq heq.symm)]
        exact Peer.books_fresh
      · rw [List.getElem?_append_right (Nat.le_of_lt hgt)] at hr
        rw [List.getElem?_eq_none (by simp; omega)] at hr
        cases hr
    · intro k hk
      rw [List.length_append] at hk
      rw [hsame]
      exact hnone k (by omega)
  | @receive n p bytes peer here normal =>
    refine hb.keep peer rfl rfl fun hp => ?_
    obtain ⟨⟨texts, htexts, hreceived⟩, hsent⟩ := hp
    exact ⟨⟨texts, htexts, by rw [hreceived, List.append_assoc]⟩, hsent⟩
  | @execute n p argv text rest r map starved peer here normal frame pending executes room =>
    refine hb.set peer rfl fun hp => ?_
    obtain ⟨⟨texts, htexts, hreceived⟩, tail, hsent, htail⟩ := hp
    have hone : (Action.execute n argv r).answered n = [(argv, r)] := if_pos rfl
    rw [hone]
    refine ⟨⟨texts ++ [text], List.rel_append htexts (.cons frame .nil), ?_⟩, [], ?_,
      fun _ _ => rfl⟩
    · rw [hreceived, pending]
      simp
    · rw [htail normal here, List.append_nil] at hsent
      rw [← List.append_assoc, hsent]
      simp
  | @abandon n p argv text rest part r map starved peer here normal frame pending executes
      part_of =>
    refine hb.keep peer rfl rfl fun hp => ?_
    obtain ⟨hreceived, tail, hsent, -⟩ := hp
    exact ⟨hreceived, tail ++ part, by rw [← List.append_assoc, hsent, List.append_assoc], nofun⟩
  | @complain n p msg part peer here part_of reason =>
    refine hb.keep peer rfl rfl fun hp => ?_
    obtain ⟨hreceived, tail, hsent, -⟩ := hp
    exact ⟨hreceived, tail ++ part, by rw [← List.append_assoc, hsent, List.append_assoc], nofun⟩
  | @send n p bytes rest peer here unsent =>
    refine hb.keep peer rfl rfl fun hp => ?_
    obtain ⟨hreceived, tail, hsent, htail⟩ := hp
    exact ⟨hreceived, tail, by rw [List.append_assoc, ← unsent, hsent], htail⟩
  | @disconnect n p peer =>
    refine hb.keep peer rfl rfl fun hp => ?_
    obtain ⟨hreceived, tail, hsent, -⟩ := hp
    exact ⟨hreceived, tail, hsent, nofun⟩

/-- **The books balance in every run.** -/
theorem run_balanced {map : RefMap} (h : system.Run (initial map) as v) : v.Balanced as := by
  have hempty : (initial map).Balanced [] := ⟨fun n p hp => (by cases hp), fun n _ => rfl⟩
  exact @System.Run.collect _ _ _ _ _ _ (fun past v => v.Balanced past)
    (fun past v a v' hb hs => books_step hb hs) h [] hempty

/-! ## All clients -/

end Service

/-- The requests that have been executed, with their replies, whoever has sent them. -/
def Action.executed : Action → List (List Bytes × Reply)
  | .execute _ argv r => [(argv, r)]
  | .abandon _ argv r => [(argv, r)]
  | _ => []

/-- The requests of a run, in the order of their execution. -/
def executedIn (as : List Action) : List (List Bytes × Reply) := as.flatMap Action.executed

/-- **A history of a map**: its requests are executed one after the other, as the reference
machine says; if memory may run short, some are refused instead and change nothing. -/
inductive HistoryRun (short : Bool) : RefMap → List (List Bytes × Reply) → RefMap → Prop
  /-- nothing is executed -/
  | nil (m : RefMap) : HistoryRun short m [] m
  /-- a request is executed -/
  | done {m m' : RefMap} {argv : List Bytes} {r : Reply} {as : List (List Bytes × Reply)}
      (reply : (refStep m argv).2 r) (rest : HistoryRun short (refStep m argv).1 as m') :
      HistoryRun short m ((argv, r) :: as) m'
  /-- a request is refused -/
  | refused {m m' : RefMap} {argv : List Bytes} {as : List (List Bytes × Reply)}
      (is_short : short = true) (rest : HistoryRun short m as m') :
      HistoryRun short m ((argv, outOfMemory) :: as) m'

namespace HistoryRun

variable {short short' : Bool} {m m' : RefMap} {as : List (List Bytes × Reply)}

/-- As long as memory lasts, a history is a run of the reference machine. -/
theorem refRun (h : HistoryRun false m as m') :
    RefRun m (as.map Prod.fst) (as.map Prod.snd) m' := by
  induction h with
  | nil m => exact .done m
  | done reply rest ih => exact .step reply ih
  | refused is_short rest ih => cases is_short

theorem mono (h : HistoryRun short m as m') (himp : short = true → short' = true) :
    HistoryRun short' m as m' := by
  induction h with
  | nil m => exact .nil m
  | done reply rest ih => exact .done reply ih
  | refused is_short rest ih => exact .refused (himp is_short) ih

end HistoryRun

/-- The requests of one client are executed in the order in which it has sent them. -/
theorem answeredTo_sublist (n : ℕ) (as : List Action) :
    (answeredTo n as).Sublist (executedIn as) := by
  induction as with
  | nil => exact .slnil
  | cons a as ih =>
    have hone : (a.answered n).Sublist a.executed := by
      cases a with
      | execute k argv r =>
        rw [Action.answered]
        split
        · exact .refl _
        · exact List.nil_sublist _
      | connect => exact .slnil
      | receive k bytes => exact .slnil
      | abandon k argv r => exact List.nil_sublist _
      | complain k msg => exact .slnil
      | send k bytes => exact .slnil
      | disconnect k => exact .slnil
    exact hone.append ih

namespace Service

variable {v v' : Service} {as : List Action}

/-- Once starved, always starved. -/
theorem starved_step {a : Action} (h : Step v a v') (hs : v'.starved = false) :
    v.starved = false := by
  cases h with
  | execute peer here normal frame pending executes room =>
    cases executes with
    | done reply => exact hs
    | starved => cases hs
  | abandon peer here normal frame pending executes part_of =>
    cases executes with
    | done reply => exact hs
    | starved => cases hs
  | connect => exact hs
  | receive bytes peer here normal => exact hs
  | complain peer here part_of reason => exact hs
  | send peer here unsent => exact hs
  | disconnect peer => exact hs

theorem starved_run (h : system.Run v as v') (hs : v'.starved = false) : v.starved = false := by
  induction h with
  | refl v => exact hs
  | head step rest ih => exact starved_step step (ih hs)

theorem starved_of_run (h : system.Run v as v') (hs : v.starved = true) : v'.starved = true := by
  by_contra hst
  rw [starved_run h (Bool.eq_false_of_not_eq_true hst)] at hs
  cases hs

/-- **One order for all requests.** The requests of all clients, in the order of their
execution, are a history of the map. -/
theorem history_run (h : system.Run v as v') :
    HistoryRun v'.starved v.map (executedIn as) v'.map := by
  induction h with
  | refl v => exact .nil _
  | @head v v₁ v' a as step rest ih =>
    rw [executedIn, List.flatMap_cons]
    -- a request that is executed comes first in the history
    have hcons : ∀ {argv r starved}, v.Executes argv r v₁.map starved → v₁.starved = starved →
        HistoryRun v'.starved v.map ((argv, r) :: executedIn as) v'.map := by
      rintro argv r starved hexec hst
      generalize hm : v₁.map = m at hexec
      cases hexec with
      | done reply => exact .done reply (hm ▸ ih)
      | starved => exact .refused (starved_of_run rest hst) (hm ▸ ih)
    cases step with
    | execute peer here normal frame pending executes room => exact hcons executes rfl
    | abandon peer here normal frame pending executes part_of => exact hcons executes rfl
    | connect => exact ih
    | receive bytes peer here normal => exact ih
    | complain peer here part_of reason => exact ih
    | send peer here unsent => exact ih
    | disconnect peer => exact ih

end Service

/-! ## What a client has seen -/

/-- The bytes an action brings from a client. -/
def Action.receivedPart (n : ℕ) : Action → Bytes
  | .receive k bytes => if k = n then bytes else []
  | _ => []

/-- The bytes an action takes to a client. -/
def Action.sentPart (n : ℕ) : Action → Bytes
  | .send k bytes => if k = n then bytes else []
  | _ => []

namespace Service

/-- A client; one that has not come yet is as it will be when it does. -/
def peer (v : Service) (n : ℕ) : Peer := v.peers[n]?.getD .fresh

variable {v v' : Service} {as : List Action}

theorem peer_of_getElem? {n : ℕ} {p : Peer} (h : v.peers[n]? = some p) : v.peer n = p := by
  rw [peer, h, Option.getD_some]

/-- A client that is connected is as expected. -/
theorem peer_connect (n : ℕ) :
    ({ v with peers := v.peers ++ [.fresh] } : Service).peer n = v.peer n := by
  rw [peer, peer]
  rcases Nat.lt_trichotomy n v.peers.length with hlt | heq | hgt
  · rw [List.getElem?_append_left hlt]
  · rw [heq, List.getElem?_append_right (Nat.le_refl _), Nat.sub_self,
      List.getElem?_eq_none (Nat.le_refl _)]
    rfl
  · rw [List.getElem?_eq_none (Nat.le_of_lt hgt), List.getElem?_eq_none (by simp; omega)]

/-- What holds of the client an action is about, and of all others, holds of everyone. -/
theorem peer_set {n : ℕ} {p q : Peer} (hpeer : v.peers[n]? = some p) {map : RefMap}
    {starved : Bool} {P : ℕ → Peer → Peer → Prop} (hq : P n p q) (hother : ∀ k r, k ≠ n → P k r r)
    (k : ℕ) : P k (v.peer k) ((⟨map, v.peers.set n q, starved⟩ : Service).peer k) := by
  by_cases hk : k = n
  · subst hk
    have hlt := (List.getElem?_eq_some_iff.mp hpeer).1
    rwa [peer_of_getElem? hpeer,
      peer_of_getElem? (v := ⟨map, v.peers.set k q, starved⟩) (List.getElem?_set_self hlt)]
  · have hsame : (⟨map, v.peers.set n q, starved⟩ : Service).peer k = v.peer k := by
      rw [peer, peer, List.getElem?_set_ne (Ne.symm hk)]
    rw [hsame]
    exact hother k _ hk

/-- Between `p` and `q`, a client has sent and got what an action says. -/
def Moved (a : Action) (n : ℕ) (p q : Peer) : Prop :=
  q.received = p.received ++ a.receivedPart n ∧ q.sent = p.sent ++ a.sentPart n

/-- **A step moves what its action says.** -/
theorem moved_step {a : Action} (h : Step v a v') (n : ℕ) : Moved a n (v.peer n) (v'.peer n) := by
  have hsame : ∀ {a : Action} {n : ℕ} {p q : Peer}, a.receivedPart n = [] → a.sentPart n = [] →
      q.received = p.received → q.sent = p.sent → Moved a n p q :=
    fun hr hs hreceived hsent => ⟨by rw [hr, hreceived, List.append_nil],
      by rw [hs, hsent, List.append_nil]⟩
  cases h with
  | connect =>
    rw [peer_connect]
    exact hsame rfl rfl rfl rfl
  | @receive k p bytes peer here normal =>
    refine peer_set (P := Moved (.receive k bytes)) peer ⟨?_, ?_⟩ ?_ n
    · simp [Action.receivedPart]
    · simp [Action.sentPart]
    · exact fun m r hm => hsame (if_neg (Ne.symm hm)) rfl rfl rfl
  | @send k p bytes rest peer here unsent =>
    refine peer_set (P := Moved (.send k bytes)) peer ⟨?_, ?_⟩ ?_ n
    · simp [Action.receivedPart]
    · simp [Action.sentPart]
    · exact fun m r hm => hsame rfl (if_neg (Ne.symm hm)) rfl rfl
  | @execute k p argv text rest r map starved peer here normal frame pending executes room =>
    refine peer_set (P := Moved (.execute k argv r)) peer ?_ (fun m r hm => hsame rfl rfl rfl rfl) n
    exact hsame rfl rfl rfl rfl
  | @abandon k p argv text rest part r map starved peer here normal frame pending executes
      part_of =>
    refine peer_set (P := Moved (.abandon k argv r)) peer ?_ (fun m r hm => hsame rfl rfl rfl rfl) n
    exact hsame rfl rfl rfl rfl
  | @complain k p msg part peer here part_of reason =>
    refine peer_set (P := Moved (.complain k msg)) peer ?_ (fun m r hm => hsame rfl rfl rfl rfl) n
    exact hsame rfl rfl rfl rfl
  | @disconnect k p peer =>
    refine peer_set (P := Moved (.disconnect k)) peer ?_ (fun m r hm => hsame rfl rfl rfl rfl) n
    exact hsame rfl rfl rfl rfl

/-- What has come from a client, and gone to it, in a run. -/
theorem moved_run (h : system.Run v as v') (n : ℕ) :
    (v'.peer n).received = (v.peer n).received ++ as.flatMap (Action.receivedPart n) ∧
      (v'.peer n).sent = (v.peer n).sent ++ as.flatMap (Action.sentPart n) := by
  induction h with
  | refl v => simp
  | head step rest ih =>
    obtain ⟨hreceived, hsent⟩ := ih
    obtain ⟨hreceived₁, hsent₁⟩ := moved_step step n
    rw [hreceived₁, List.append_assoc] at hreceived
    rw [hsent₁, List.append_assoc] at hsent
    exact ⟨hreceived, hsent⟩

/-! ## Many steps at once -/

/-- Bytes may come in many pieces. -/
theorem receive_run {n : ℕ} {p : Peer} (peer : v.peers[n]? = some p) (here : p.gone = false)
    (normal : p.closing = false) (chunks : List Bytes) :
    system.Run v (chunks.map (.receive n)) { v with
      peers := v.peers.set n { p with
        received := p.received ++ chunks.flatten, pending := p.pending ++ chunks.flatten } } := by
  induction chunks generalizing v p with
  | nil =>
    obtain ⟨hn, hget⟩ := List.getElem?_eq_some_iff.mp peer
    simp only [List.flatten_nil, List.append_nil]
    rw [← hget, List.set_getElem_self]
    exact .refl v
  | cons c chunks ih =>
    have hstep : system.step v (.receive n c) _ := .receive c peer here normal
    refine .head hstep ?_
    have hn := (List.getElem?_eq_some_iff.mp peer).1
    have hrest := @ih { v with peers := v.peers.set n { p with
      received := p.received ++ c, pending := p.pending ++ c } } _ (List.getElem?_set_self hn) here
      normal
    simpa only [List.set_set, List.flatten_cons, List.append_assoc] using hrest

/-- Bytes may go in many pieces. -/
theorem send_run {n : ℕ} {p : Peer} (peer : v.peers[n]? = some p) (here : p.gone = false)
    (pieces : List Bytes) {rest : Bytes} (unsent : p.unsent = pieces.flatten ++ rest) :
    system.Run v (pieces.map (.send n)) { v with
      peers := v.peers.set n { p with sent := p.sent ++ pieces.flatten, unsent := rest } } := by
  induction pieces generalizing v p with
  | nil =>
    obtain ⟨hn, hget⟩ := List.getElem?_eq_some_iff.mp peer
    rw [List.flatten_nil, List.nil_append] at unsent
    simp only [List.flatten_nil, List.append_nil]
    rw [← unsent, ← hget, List.set_getElem_self]
    exact .refl v
  | cons c pieces ih =>
    rw [List.flatten_cons, List.append_assoc] at unsent
    have hstep : system.step v (.send n c) _ := .send peer here unsent
    refine .head hstep ?_
    have hn := (List.getElem?_eq_some_iff.mp peer).1
    have hrest := @ih { v with peers := v.peers.set n { p with
      sent := p.sent ++ c, unsent := pieces.flatten ++ rest } } _ (List.getElem?_set_self hn) here
      rfl
    simpa only [List.set_set, List.flatten_cons, List.append_assoc] using hrest

end Service

end RedisInC
