import EynOS.Daemon.Calls

/-!
# What a call of a daemon returns

`not_own_answer` lets a call time out after its request was received: the reply comes while the next
client waits, which takes it for its own. `own_answer` is when a call that returns a reply returns
the one to its own request: where a client opens the reply FIFO only when nothing is left of an
earlier request, and the daemon gives no receive up with bytes taken. That at most one client is
between lock acquisition and release needs no condition (`Locked`).
-/

namespace EynOS.Daemon.Calls

open Foundation

variable {state after : State} {capacity client : ℕ} {phase : Phase} {event : Event}

/-! ### The lock -/

theorem Phase.holds_of_reads (hreads : phase.reads = true) : phase.holds = true := by
  cases phase <;> first | rfl | exact hreads

theorem Phase.reads_of_writes (hwrites : phase.writes = true) : phase.reads = true := by
  cases phase <;> first | rfl | exact hwrites

/-- At most one client is between lock acquisition and release, and the open ends of the reply FIFO
are its own and the one of the daemon. -/
structure Locked (state : State) : Prop where
  held : ∀ client, (state.clients client).holds = true → state.lock = true
  one : ∀ first second, (state.clients first).holds = true →
    (state.clients second).holds = true → first = second
  ends : ∀ client, (state.clients client).holds = true →
    state.readers = (state.clients client).reads.toNat ∧
      state.writers = (state.clients client).writes.toNat + state.daemon.replies.toNat
  free : state.lock = false → state.readers = 0 ∧ state.writers = state.daemon.replies.toNat
  replies_le : state.daemon.replies.toNat ≤ state.writers
  closed : state.readers = 0 → state.writers = 0 → state.replyFifo = []

/-- The client with the lock goes on with it. -/
theorem Locked.advance (hlocked : Locked state) (hholds : (state.clients client).holds = true)
    (hlock : after.lock = state.lock)
    (hclients : after.clients = Function.update state.clients client phase)
    (hreaders : after.readers = phase.reads.toNat)
    (hwriters : after.writers = phase.writes.toNat + after.daemon.replies.toNat)
    (hclosed : after.readers = 0 → after.writers = 0 → after.replyFifo = []) : Locked after := by
  have hheld := hlocked.held client hholds
  have honly (other : ℕ) (hother : (after.clients other).holds = true) : other = client := by
    by_contra hne
    rw [hclients, Function.update_of_ne hne] at hother
    exact hne (hlocked.one other client hother hholds)
  refine ⟨fun _ _ ↦ hlock.trans hheld, fun first second hfirst hsecond ↦ ?_, fun other hother ↦ ?_,
    fun hfree ↦ ?_, hwriters ▸ Nat.le_add_left _ _, hclosed⟩
  · rw [honly first hfirst, honly second hsecond]
  · rw [honly other hother, hclients, Function.update_self]
    exact ⟨hreaders, hwriters⟩
  · rw [hlock, hheld] at hfree
    exact absurd hfree.symm Bool.false_ne_true

/-- The daemon goes on. -/
theorem Locked.daemon (hlocked : Locked state) (hlock : after.lock = state.lock)
    (hclients : after.clients = state.clients) (hreaders : after.readers = state.readers)
    (hwriters : after.writers + state.daemon.replies.toNat =
      state.writers + after.daemon.replies.toNat)
    (hclosed : after.readers = 0 → after.writers = 0 → after.replyFifo = []) : Locked after where
  held := by
    rw [hclients, hlock]
    exact hlocked.held
  one := by
    rw [hclients]
    exact hlocked.one
  ends := by
    rw [hclients, hreaders]
    intro client hholds
    obtain ⟨hread, hwrite⟩ := hlocked.ends client hholds
    exact ⟨hread, by omega⟩
  free := by
    rw [hlock, hreaders]
    intro hfree
    obtain ⟨hread, hwrite⟩ := hlocked.free hfree
    exact ⟨hread, by omega⟩
  replies_le := by
    have hle := hlocked.replies_le
    omega
  closed := hclosed

/-- A client without the lock goes on without it. -/
theorem Locked.outside (hlocked : Locked state) (hholds : (state.clients client).holds = false)
    (hphase : phase.holds = false) : Locked (state.setClient client phase) := by
  have hsame (other : ℕ) (hother : ((state.setClient client phase).clients other).holds = true) :
      (state.setClient client phase).clients other = state.clients other := by
    by_cases hclient : other = client
    · subst hclient
      change (Function.update state.clients other phase other).holds = true at hother
      rw [Function.update_self, hphase] at hother
      exact absurd hother Bool.false_ne_true
    · exact Function.update_of_ne hclient _ _
  refine ⟨fun other hother ↦ ?_, fun first second hfirst hsecond ↦ ?_, fun other hother ↦ ?_,
    hlocked.free, hlocked.replies_le, hlocked.closed⟩
  · exact hlocked.held other (by rwa [hsame other hother] at hother)
  · exact hlocked.one first second (by rwa [hsame first hfirst] at hfirst)
      (by rwa [hsame second hsecond] at hsecond)
  · have hholder := hother
    rw [hsame other hother] at hholder ⊢
    exact hlocked.ends other hholder

/-- The bytes of the reply FIFO are dropped with its last end. -/
theorem closeEnds_closed (readers writers : ℕ)
    (hreaders : (state.closeEnds readers writers).readers = 0)
    (hwriters : (state.closeEnds readers writers).writers = 0) :
    (state.closeEnds readers writers).replyFifo = [] :=
  if_pos ⟨hreaders, hwriters⟩

section

variable (hlocked : Locked state)

include hlocked

/-- A client with both ends closes them. -/
theorem Locked.leave (hphase : (state.clients client).writes = true)
    (replyFifo : List Item) :
    Locked (({ state with replyFifo := replyFifo }.closeEnds 1 1).setClient client .leaving) := by
  have hreads := Phase.reads_of_writes hphase
  have hholds := Phase.holds_of_reads hreads
  obtain ⟨hreaders, hwriters⟩ := hlocked.ends client hholds
  rw [hreads] at hreaders
  rw [hphase] at hwriters
  refine hlocked.advance hholds rfl rfl ?_ ?_ (closeEnds_closed 1 1)
  · change state.readers - 1 = 0
    rw [hreaders]
    rfl
  · change state.writers - 1 = 0 + state.daemon.replies.toNat
    rw [hwriters, Nat.add_comm _ state.daemon.replies.toNat, Nat.zero_add]
    rfl

theorem Locked.closeReply : Locked state.closeReply := by
  unfold State.closeReply
  cases hdaemon : state.daemon with
  | replying id reply written =>
    have hreplies : state.daemon.replies = true := by
      rw [hdaemon]
      rfl
    refine hlocked.daemon rfl rfl rfl ?_ (closeEnds_closed 0 1)
    have hle := hlocked.replies_le
    rw [hreplies] at hle ⊢
    exact Nat.sub_add_cancel hle
  | _ => exact hlocked

theorem Locked.ends_of (hphase : state.clients client = phase)
    (hholds : phase.holds = true) : state.readers = phase.reads.toNat ∧
      state.writers = phase.writes.toNat + state.daemon.replies.toNat := by
  subst hphase
  exact hlocked.ends client hholds

theorem Locked.begin (client : ℕ) (request : Message) (respCap : ℕ) :
    Locked (state.begin client request respCap) := by
  unfold State.begin
  split_ifs
  · exact hlocked
  cases hphase : state.clients client with
  | idle =>
    have hset : Locked (state.setClient client
        (.locking { id := state.nextId, request := request, respCap := respCap })) :=
      hlocked.outside (by rw [hphase]; rfl) rfl
    exact ⟨hset.held, hset.one, hset.ends, hset.free, hset.replies_le, hset.closed⟩
  | _ => exact hlocked

theorem Locked.lockTimeout (client : ℕ) :
    Locked (state.lockTimeout client) := by
  unfold State.lockTimeout
  cases hphase : state.clients client with
  | locking call => exact hlocked.outside (by rw [hphase]; rfl) rfl
  | _ => exact hlocked

theorem Locked.acquire (client : ℕ) : Locked (state.acquire client) := by
  unfold State.acquire
  cases hphase : state.clients client with
  | locking call =>
    simp only
    cases hlock : state.lock with
    | true => exact hlocked
    | false =>
      obtain ⟨hreaders, hwriters⟩ := hlocked.free hlock
      have honly (other : ℕ)
          (hother : (Function.update state.clients client (.locked call) other).holds = true) :
          other = client := by
        by_contra hne
        rw [Function.update_of_ne hne] at hother
        exact absurd (hlock.symm.trans (hlocked.held other hother)) Bool.false_ne_true
      refine ⟨fun _ _ ↦ rfl, fun first second hfirst hsecond ↦ ?_, fun other hother ↦ ?_,
        fun hfree ↦ absurd hfree.symm Bool.false_ne_true, hlocked.replies_le, hlocked.closed⟩
      · rw [honly first hfirst, honly second hsecond]
      · rw [honly other hother]
        change state.readers =
            (Function.update state.clients client (.locked call) client).reads.toNat ∧
          state.writers =
            (Function.update state.clients client (.locked call) client).writes.toNat + _
        rw [Function.update_self, hreaders, hwriters]
        exact ⟨rfl, (Nat.zero_add _).symm⟩
  | _ => exact hlocked

theorem Locked.openReader (client : ℕ) :
    Locked (state.openReader client) := by
  unfold State.openReader
  cases hphase : state.clients client with
  | locked call =>
    obtain ⟨hreaders, hwriters⟩ := hlocked.ends_of hphase rfl
    refine hlocked.advance (by rw [hphase]; rfl) rfl rfl ?_ hwriters fun hnone ↦
      absurd hnone (Nat.succ_ne_zero _)
    exact congrArg (· + 1) hreaders
  | _ => exact hlocked

theorem Locked.openFails (client : ℕ) :
    Locked (state.openFails client) := by
  unfold State.openFails
  cases hphase : state.clients client with
  | locked call =>
    obtain ⟨hreaders, hwriters⟩ := hlocked.ends_of hphase rfl
    exact hlocked.advance (by rw [hphase]; rfl) rfl rfl hreaders hwriters hlocked.closed
  | opened call =>
    obtain ⟨hreaders, hwriters⟩ := hlocked.ends_of hphase rfl
    refine hlocked.advance (by rw [hphase]; rfl) rfl rfl ?_ hwriters (closeEnds_closed 1 0)
    exact congrArg (· - 1) hreaders
  | _ => exact hlocked

theorem Locked.openWriter (client : ℕ) :
    Locked (state.openWriter client) := by
  unfold State.openWriter
  cases hphase : state.clients client with
  | opened call =>
    obtain ⟨hreaders, hwriters⟩ := hlocked.ends_of hphase rfl
    refine hlocked.advance (by rw [hphase]; rfl) rfl rfl hreaders ?_ fun _ hnone ↦
      absurd hnone (Nat.succ_ne_zero _)
    refine (congrArg (· + 1) hwriters).trans ?_
    change 0 + state.daemon.replies.toNat + 1 = 1 + state.daemon.replies.toNat
    omega
  | _ => exact hlocked

theorem Locked.write (capacity client : ℕ) :
    Locked (state.write capacity client) := by
  unfold State.write
  cases hphase : state.clients client with
  | writing call written =>
    obtain ⟨hreaders, hwriters⟩ := hlocked.ends_of hphase rfl
    simp only
    generalize min (call.request.encode.length - written)
      (capacity - state.requestFifo.length) = count
    by_cases hzero : count = 0
    · rw [if_pos hzero]
      exact hlocked
    rw [if_neg hzero]
    refine hlocked.advance (by rw [hphase]; rfl) rfl rfl ?_ ?_ hlocked.closed
    · split_ifs <;> exact hreaders
    · split_ifs <;> exact hwriters
  | _ => exact hlocked

theorem Locked.writeFails (client : ℕ) :
    Locked (state.writeFails client) := by
  unfold State.writeFails
  cases hphase : state.clients client with
  | writing call written => exact hlocked.leave (by rw [hphase]; rfl) state.replyFifo
  | _ => exact hlocked

theorem Locked.read (client : ℕ) : Locked (state.read client) := by
  unfold State.read
  cases hphase : state.clients client with
  | receiving call got =>
    have hwrites : (state.clients client).writes = true := by
      rw [hphase]
      rfl
    obtain ⟨hreaders, hwriters⟩ := hlocked.ends_of hphase rfl
    simp only
    generalize state.replyFifo.take _ = taken
    by_cases hnone : taken = []
    · rw [if_pos hnone]
      exact hlocked
    rw [if_neg hnone]
    cases (framing Prod.fst).status (got ++ taken) with
    | more =>
      refine hlocked.advance (by rw [hphase]; rfl) rfl rfl hreaders hwriters fun hzero ↦ ?_
      exact absurd (hreaders.symm.trans hzero) Nat.one_ne_zero
    | bad => exact hlocked.leave hwrites _
    | complete =>
      have hleft := hlocked.leave hwrites (state.replyFifo.drop taken.length)
      exact ⟨hleft.held, hleft.one, hleft.ends, hleft.free, hleft.replies_le, hleft.closed⟩
  | _ => exact hlocked

theorem Locked.giveUp (client : ℕ) : Locked (state.giveUp client) := by
  unfold State.giveUp
  cases hphase : state.clients client with
  | receiving call got => exact hlocked.leave (by rw [hphase]; rfl) state.replyFifo
  | _ => exact hlocked

theorem Locked.release (client : ℕ) : Locked (state.release client) := by
  unfold State.release
  cases hphase : state.clients client with
  | leaving =>
    obtain ⟨hreaders, hwriters⟩ := hlocked.ends_of hphase rfl
    have hnone (other : ℕ)
        (hother : (Function.update state.clients client .idle other).holds = true) : False := by
      by_cases hsame : other = client
      · rw [hsame, Function.update_self] at hother
        exact Bool.false_ne_true hother
      · rw [Function.update_of_ne hsame] at hother
        exact hsame (hlocked.one other client hother (by rw [hphase]; rfl))
    exact ⟨fun other hother ↦ (hnone other hother).elim,
      fun first _ hfirst ↦ (hnone first hfirst).elim,
      fun other hother ↦ (hnone other hother).elim,
      fun _ ↦ ⟨hreaders, hwriters.trans (Nat.zero_add _)⟩, hlocked.replies_le, hlocked.closed⟩
  | _ => exact hlocked

/-- A receive of the daemon. -/
theorem Locked.receives :
    Locked state.recv ∧ Locked state.daemonRead ∧ Locked state.daemonGiveUp := by
  unfold State.recv State.daemonRead State.daemonGiveUp
  cases hdaemon : state.daemon with
  | idle =>
    exact ⟨hlocked.daemon rfl rfl rfl (by rw [hdaemon]; rfl) hlocked.closed, hlocked, hlocked⟩
  | receiving got =>
    refine ⟨hlocked, ?_, hlocked.daemon rfl rfl rfl (by rw [hdaemon]; rfl) hlocked.closed⟩
    simp only
    split_ifs
    · exact hlocked
    cases (framing Prod.fst).status (got ++ state.requestFifo.take _) with
    | _ => exact hlocked.daemon rfl rfl rfl (by rw [hdaemon]; rfl) hlocked.closed
  | replying id reply written => exact ⟨hlocked, hlocked, hlocked⟩

/-- The daemon opens the reply FIFO, or cannot. -/
theorem Locked.replies (id : ℕ) :
    (∀ reply, Locked (state.reply id reply)) ∧ Locked (state.replyFails id) := by
  unfold State.reply State.replyFails
  cases hdaemon : state.daemon with
  | idle =>
    refine ⟨fun reply ↦ ?_, hlocked.daemon rfl rfl rfl (by rw [hdaemon]) hlocked.closed⟩
    simp only
    split_ifs
    · exact hlocked.daemon rfl rfl rfl (by rw [hdaemon]; rfl)
        fun _ hnone ↦ absurd hnone (Nat.succ_ne_zero _)
    · exact hlocked
  | _ => exact ⟨fun _ ↦ hlocked, hlocked⟩

theorem Locked.writeReply (capacity : ℕ) :
    Locked (state.writeReply capacity) := by
  unfold State.writeReply
  cases hdaemon : state.daemon with
  | replying id reply written =>
    simp only
    by_cases hreaders : state.readers = 0
    · rw [if_pos hreaders]
      exact hlocked.closeReply
    · rw [if_neg hreaders]
      exact hlocked.daemon rfl rfl rfl (by rw [hdaemon]; rfl) fun hzero ↦ absurd hzero hreaders
  | _ => exact hlocked

/-- Each event keeps the lock. -/
theorem Locked.step (capacity : ℕ) (event : Event) :
    Locked (state.step capacity event) := by
  cases event with
  | begin client request respCap => exact hlocked.begin client request respCap
  | lockTimeout client => exact hlocked.lockTimeout client
  | acquire client => exact hlocked.acquire client
  | openReader client => exact hlocked.openReader client
  | openFails client => exact hlocked.openFails client
  | openWriter client => exact hlocked.openWriter client
  | write client => exact hlocked.write capacity client
  | writeFails client => exact hlocked.writeFails client
  | read client => exact hlocked.read client
  | giveUp client => exact hlocked.giveUp client
  | release client => exact hlocked.release client
  | recv => exact hlocked.receives.1
  | daemonRead => exact hlocked.receives.2.1
  | daemonGiveUp => exact hlocked.receives.2.2
  | reply id reply => exact (hlocked.replies id).1 reply
  | replyFails id => exact (hlocked.replies id).2
  | writeReply => exact hlocked.writeReply capacity
  | closeReply => exact hlocked.closeReply

end

/-! ### One request at a time -/

/-- What a client has taken of a reply and what is in the reply FIFO is the beginning of a reply to
its request, or nothing. -/
def Part (state : State) (call : Call) (got : List Item) : Prop :=
  got ++ state.replyFifo = [] ∨ ∃ reply written, (call.id, reply) ∈ state.replied ∧
    got ++ state.replyFifo = tag call.id (reply.encode.take written)

/-- What a client with the reply FIFO finds in it where no request is under way. -/
def SettledClient (state : State) : Phase → Prop
  | .opened _ => state.replyFifo = []
  | .writing _ written => written = 0 ∧ state.replyFifo = []
  | .receiving call got => Part state call got
  | _ => True

/-- Where the one request is that is under way: nowhere, on its way to the daemon, received, or
replied to. A client that reads the reply FIFO is the one that has sent it. -/
inductive Exchange (state : State) : Prop
  | settled (hsettled : state.Settled)
      (hclients : ∀ client, (state.clients client).reads = true →
        SettledClient state (state.clients client))
  | requesting (call : Call) (written : ℕ) (hpositive : 0 < written)
      (hle : written ≤ call.request.encode.length)
      (hbytes : state.daemon.got ++ state.requestFifo =
        tag call.id (call.request.encode.take written))
      (hunanswered : state.unanswered = []) (hreplies : state.daemon.replies = false)
      (hempty : state.replyFifo = [])
      (hclients : ∀ client, (state.clients client).reads = true →
        state.clients client = .writing call written ∧ written < call.request.encode.length ∨
          state.clients client = .receiving call [] ∧ written = call.request.encode.length)
  | received (id : ℕ) (hrequests : state.requestFifo = []) (hgot : state.daemon.got = [])
      (hunanswered : state.unanswered = [id]) (hreplies : state.daemon.replies = false)
      (hempty : state.replyFifo = [])
      (hclients : ∀ client, (state.clients client).reads = true →
        ∃ call, state.clients client = .receiving call [] ∧ call.id = id)
  | replying (id : ℕ) (reply : Message) (written : ℕ)
      (hdaemon : state.daemon = .replying id reply written) (hrequests : state.requestFifo = [])
      (hunanswered : state.unanswered = []) (hreplied : (id, reply) ∈ state.replied)
      (hclients : ∀ client, (state.clients client).reads = true →
        ∃ call got, state.clients client = .receiving call got ∧ call.id = id ∧
          got ++ state.replyFifo = tag id (reply.encode.take written))

/-- A change of clients that leaves those with the reply FIFO as they are, or without it. -/
theorem Exchange.congr (hexchange : Exchange state)
    (hrequests : after.requestFifo = state.requestFifo) (hgot : after.daemon.got = state.daemon.got)
    (hreplying : ∀ id reply written, state.daemon = .replying id reply written →
      after.daemon = .replying id reply written)
    (hreplies : after.daemon.replies = state.daemon.replies)
    (hunanswered : after.unanswered = state.unanswered) (hreplied : after.replied = state.replied)
    (hempty : state.replyFifo = [] → after.replyFifo = [])
    (hclients : ∀ client, (after.clients client).reads = true →
      after.clients client = state.clients client ∧ after.replyFifo = state.replyFifo) :
    Exchange after := by
  have hreads (client : ℕ) (hafter : (after.clients client).reads = true) :
      (state.clients client).reads = true := by
    rwa [(hclients client hafter).1] at hafter
  cases hexchange with
  | settled hsettled hsame =>
    obtain ⟨hfifo, htaken, hnone, hidle⟩ := hsettled
    refine .settled ⟨hrequests.trans hfifo, hgot.trans htaken, hunanswered.trans hnone,
      hreplies.trans hidle⟩ fun client hafter ↦ ?_
    obtain ⟨hphase, hreply⟩ := hclients client hafter
    have hclient := hsame client (hreads client hafter)
    rw [hphase]
    cases hwas : state.clients client with
    | opened call =>
      rw [hwas] at hclient
      exact hreply.trans hclient
    | writing call written =>
      rw [hwas] at hclient
      exact ⟨hclient.1, hreply.trans hclient.2⟩
    | receiving call got =>
      rw [hwas] at hclient
      unfold SettledClient Part at hclient ⊢
      rw [hreply, hreplied]
      exact hclient
    | _ => trivial
  | requesting call written hpositive hle hbytes hnone hidle hno hsame =>
    refine .requesting call written hpositive hle ?_ (hunanswered.trans hnone)
      (hreplies.trans hidle) (hempty hno) fun client hafter ↦ ?_
    · rw [hgot, hrequests]
      exact hbytes
    · rw [(hclients client hafter).1]
      exact hsame client (hreads client hafter)
  | received id hfifo htaken hone hidle hno hsame =>
    refine .received id (hrequests.trans hfifo) (hgot.trans htaken) (hunanswered.trans hone)
      (hreplies.trans hidle) (hempty hno) fun client hafter ↦ ?_
    rw [(hclients client hafter).1]
    exact hsame client (hreads client hafter)
  | replying id reply written hdaemon hfifo hnone hsent hsame =>
    refine .replying id reply written (hreplying id reply written hdaemon)
      (hrequests.trans hfifo) (hunanswered.trans hnone) (hreplied ▸ hsent) fun client hafter ↦ ?_
    obtain ⟨hphase, hreply⟩ := hclients client hafter
    rw [hphase, hreply]
    exact hsame client (hreads client hafter)

/-- A client that does not have the reply FIFO goes on without it. -/
theorem Exchange.outside (hexchange : Exchange state)
    (hphase : phase.reads = false) (hrequests : after.requestFifo = state.requestFifo)
    (hdaemon : after.daemon = state.daemon) (hunanswered : after.unanswered = state.unanswered)
    (hreplied : after.replied = state.replied) (hreplies : after.replyFifo = state.replyFifo)
    (hclients : after.clients = Function.update state.clients client phase) : Exchange after := by
  refine hexchange.congr hrequests (by rw [hdaemon]) (fun _ _ _ h ↦ hdaemon.trans h)
    (by rw [hdaemon]) hunanswered hreplied hreplies.trans fun other hother ↦ ⟨?_, hreplies⟩
  rw [hclients] at hother ⊢
  by_cases hsame : other = client
  · rw [hsame, Function.update_self, hphase] at hother
    exact absurd hother Bool.false_ne_true
  · exact Function.update_of_ne hsame _ _

/-- No client has the reply FIFO after the one with the lock has left it. -/
theorem Locked.nobody (hlocked : Locked state) (hholds : (state.clients client).holds = true)
    (hphase : phase.reads = false)
    (hclients : after.clients = Function.update state.clients client phase) (other : ℕ) :
    (after.clients other).reads = false := by
  rw [hclients]
  by_cases hsame : other = client
  · rw [hsame, Function.update_self]
    exact hphase
  · rw [Function.update_of_ne hsame, ← Bool.not_eq_true]
    exact fun hother ↦ hsame (hlocked.one other client (Phase.holds_of_reads hother) hholds)

/-- The client with the reply FIFO leaves it, and may have emptied it. -/
theorem Exchange.leave (hexchange : Exchange state)
    (hnobody : ∀ client, (after.clients client).reads = false)
    (hrequests : after.requestFifo = state.requestFifo) (hdaemon : after.daemon = state.daemon)
    (hunanswered : after.unanswered = state.unanswered) (hreplied : after.replied = state.replied)
    (hempty : state.replyFifo = [] → after.replyFifo = []) : Exchange after := by
  refine hexchange.congr hrequests (by rw [hdaemon]) (fun _ _ _ h ↦ hdaemon.trans h)
    (by rw [hdaemon]) hunanswered hreplied hempty fun client hclient ↦ ?_
  rw [hnobody client] at hclient
  exact absurd hclient Bool.false_ne_true

theorem closeEnds_empty (readers writers : ℕ) (hempty : state.replyFifo = []) :
    (state.closeEnds readers writers).replyFifo = [] := by
  unfold State.closeEnds
  simp only
  rw [hempty, ite_self]

/-! ### Calls that keep the exchange -/

variable {call : Call} {written : ℕ} {got : List Item}

theorem Exchange.openReader (hexchange : Exchange state) (hlocked : Locked state)
    (hsettled : state.Settled) (client : ℕ) : Exchange (state.openReader client) := by
  unfold State.openReader
  cases hphase : state.clients client with
  | locked call =>
    have hholds : (state.clients client).holds = true := by
      rw [hphase]
      rfl
    obtain ⟨hreaders, hwriters⟩ := hlocked.ends_of hphase rfl
    rw [hsettled.2.2.2] at hwriters
    have hempty : state.replyFifo = [] := hlocked.closed hreaders hwriters
    refine .settled hsettled fun other hother ↦ ?_
    change (Function.update state.clients client (.opened call) other).reads = true at hother
    change SettledClient _ (Function.update state.clients client (.opened call) other)
    by_cases hsame : other = client
    · rw [hsame, Function.update_self]
      exact hempty
    · rw [Function.update_of_ne hsame] at hother
      exact absurd (hlocked.one other client (Phase.holds_of_reads hother) hholds) hsame
  | _ => exact hexchange

/-- A client that has just opened the reply FIFO finds no request under way. -/
theorem Exchange.settled_of_opened (hexchange : Exchange state)
    (hphase : state.clients client = .opened call) : state.Settled ∧ state.replyFifo = [] := by
  have hreads : (state.clients client).reads = true := by
    rw [hphase]
    rfl
  cases hexchange with
  | settled hsettled hclients =>
    have hclient := hclients client hreads
    rw [hphase] at hclient
    exact ⟨hsettled, hclient⟩
  | requesting _ _ _ _ _ _ _ _ hclients =>
    rcases hclients client hreads with ⟨hother, -⟩ | ⟨hother, -⟩
    · exact absurd (hphase.symm.trans hother) Phase.noConfusion
    · exact absurd (hphase.symm.trans hother) Phase.noConfusion
  | received _ _ _ _ _ _ hclients =>
    obtain ⟨_, hother, -⟩ := hclients client hreads
    exact absurd (hphase.symm.trans hother) Phase.noConfusion
  | replying _ _ _ _ _ _ _ hclients =>
    obtain ⟨_, _, hother, -⟩ := hclients client hreads
    exact absurd (hphase.symm.trans hother) Phase.noConfusion

theorem Exchange.openWriter (hexchange : Exchange state) (hlocked : Locked state) (client : ℕ) :
    Exchange (state.openWriter client) := by
  unfold State.openWriter
  cases hphase : state.clients client with
  | opened call =>
    obtain ⟨hsettled, hempty⟩ := hexchange.settled_of_opened hphase
    have hholds : (state.clients client).holds = true := by
      rw [hphase]
      rfl
    refine .settled hsettled fun other hother ↦ ?_
    change (Function.update state.clients client (.writing call 0) other).reads = true at hother
    change SettledClient _ (Function.update state.clients client (.writing call 0) other)
    by_cases hsame : other = client
    · rw [hsame, Function.update_self]
      exact ⟨rfl, hempty⟩
    · rw [Function.update_of_ne hsame] at hother
      exact absurd (hlocked.one other client (Phase.holds_of_reads hother) hholds) hsame
  | _ => exact hexchange

theorem tag_append (id : ℕ) (first second : List UInt8) :
    tag id (first ++ second) = tag id first ++ tag id second :=
  List.map_append

theorem map_fst_tag (id : ℕ) (bytes : List UInt8) : (tag id bytes).map Prod.fst = bytes := by
  rw [tag, List.map_map]
  exact List.map_id bytes

/-- What is written next comes behind what is written. -/
theorem tag_take_add (id : ℕ) (bytes : List UInt8) (first second : ℕ) :
    tag id (bytes.take (first + second)) =
      tag id (bytes.take first) ++ tag id ((bytes.drop first).take second) := by
  rw [List.take_add, tag_append]

/-- What a client that writes its request has written. -/
theorem Exchange.written_of_writing (hexchange : Exchange state)
    (hphase : state.clients client = .writing call written) :
    state.daemon.got ++ state.requestFifo = tag call.id (call.request.encode.take written) ∧
      state.unanswered = [] ∧ state.daemon.replies = false ∧ state.replyFifo = [] := by
  have hreads : (state.clients client).reads = true := by
    rw [hphase]
    rfl
  cases hexchange with
  | settled hsettled hclients =>
    obtain ⟨hrequests, hgot, hunanswered, hreplies⟩ := hsettled
    have hclient := hclients client hreads
    rw [hphase] at hclient
    obtain ⟨rfl, hempty⟩ := hclient
    rw [hrequests, hgot]
    exact ⟨rfl, hunanswered, hreplies, hempty⟩
  | requesting sent count _ _ hbytes hunanswered hreplies hempty hclients =>
    rcases hclients client hreads with ⟨hother, -⟩ | ⟨hother, -⟩
    · rw [hphase, Phase.writing.injEq] at hother
      obtain ⟨rfl, rfl⟩ := hother
      exact ⟨hbytes, hunanswered, hreplies, hempty⟩
    · exact absurd (hphase.symm.trans hother) Phase.noConfusion
  | received _ _ _ _ _ _ hclients =>
    obtain ⟨_, hother, -⟩ := hclients client hreads
    exact absurd (hphase.symm.trans hother) Phase.noConfusion
  | replying _ _ _ _ _ _ _ hclients =>
    obtain ⟨_, _, hother, -⟩ := hclients client hreads
    exact absurd (hphase.symm.trans hother) Phase.noConfusion

theorem Exchange.write (hexchange : Exchange state) (hlocked : Locked state)
    (capacity client : ℕ) :
    Exchange (state.write capacity client) := by
  unfold State.write
  cases hphase : state.clients client with
  | writing call written =>
    obtain ⟨hbytes, hunanswered, hreplies, hempty⟩ := hexchange.written_of_writing hphase
    have hholds : (state.clients client).holds = true := by
      rw [hphase]
      rfl
    simp only
    generalize hcount : min (call.request.encode.length - written)
      (capacity - state.requestFifo.length) = count
    by_cases hzero : count = 0
    · rw [if_pos hzero]
      exact hexchange
    rw [if_neg hzero]
    refine .requesting call (written + count) (by omega) (by omega) ?_ hunanswered hreplies hempty
      fun other hother ↦ ?_
    · change state.daemon.got ++ (state.requestFifo ++ _) = _
      rw [tag_take_add, ← List.append_assoc, hbytes]
    · change (Function.update state.clients client _ other).reads = true at hother
      change Function.update state.clients client _ other = _ ∧ _ ∨
        Function.update state.clients client _ other = _ ∧ _
      by_cases hsame : other = client
      · rw [hsame, Function.update_self]
        by_cases hended : written + count = call.request.encode.length
        · rw [if_pos hended]
          exact Or.inr ⟨rfl, hended⟩
        · rw [if_neg hended]
          exact Or.inl ⟨rfl, by omega⟩
      · rw [Function.update_of_ne hsame] at hother
        exact absurd (hlocked.one other client (Phase.holds_of_reads hother) hholds) hsame
  | _ => exact hexchange

/-- What a client takes from the reply FIFO is a part of a reply to its request. -/
theorem Exchange.part_of_receiving (hexchange : Exchange state)
    (hphase : state.clients client = .receiving call got) (hsome : state.replyFifo ≠ []) :
    ∃ reply written, (call.id, reply) ∈ state.replied ∧
      got ++ state.replyFifo = tag call.id (reply.encode.take written) := by
  have hreads : (state.clients client).reads = true := by
    rw [hphase]
    rfl
  cases hexchange with
  | settled _ hclients =>
    have hclient := hclients client hreads
    rw [hphase] at hclient
    refine hclient.resolve_left fun hnone ↦ ?_
    exact hsome (List.append_eq_nil_iff.mp hnone).2
  | requesting _ _ _ _ _ _ _ hempty _ => exact absurd hempty hsome
  | received _ _ _ _ _ hempty _ => exact absurd hempty hsome
  | replying id reply written _ _ _ hreplied hclients =>
    obtain ⟨own, taken, hown, rfl, hbytes⟩ := hclients client hreads
    rw [hphase, Phase.receiving.injEq] at hown
    obtain ⟨rfl, rfl⟩ := hown
    exact ⟨reply, written, hreplied, hbytes⟩

theorem take_append_drop_length {items taken : List Item} {count : ℕ}
    (htaken : items.take count = taken) : taken ++ items.drop taken.length = items := by
  have hpre : taken <+: items := by
    rw [← htaken]
    exact List.take_prefix _ _
  exact List.prefix_iff_eq_append.mp hpre

/-- A reader that asks for a part of a message gets one. -/
theorem read_within {message : Message} {id : ℕ} {items taken : List Item}
    (hitems : got ++ items = tag id (message.encode.take written))
    (htaken : items.take ((framing Prod.fst).wanted got) = taken) :
    (framing Prod.fst).IsFrame (tag id message.encode) ∧
      got ++ taken <+: tag id message.encode := by
  have hframe : (framing Prod.fst).IsFrame (tag id message.encode) :=
    isFrame_encode (map_fst_tag id message.encode)
  have hstream : got ++ (taken ++ (items.drop taken.length ++
      tag id (message.encode.drop written))) = tag id message.encode ++ [] := by
    rw [← List.append_assoc taken, take_append_drop_length htaken, ← List.append_assoc, hitems,
      ← tag_append, List.take_append_drop, List.append_nil]
  have hgot : got <+: tag id message.encode := by
    rw [List.append_nil] at hstream
    rw [← hstream]
    exact List.prefix_append _ _
  refine ⟨hframe, hframe.read hgot hstream ?_⟩
  rw [← htaken, List.length_take]
  exact Nat.min_le_left _ _

theorem got_append_drop {items taken bytes : List Item} {count : ℕ} (hitems : got ++ items = bytes)
    (htaken : items.take count = taken) : (got ++ taken) ++ items.drop taken.length = bytes := by
  rw [List.append_assoc, take_append_drop_length htaken, hitems]

/-- Each reply that a call returns is the one that the daemon sent to its request. -/
def Answered (state : State) : Prop :=
  ∀ answer ∈ state.answers, ∃ reply, (answer.id, reply) ∈ state.replied ∧
    answer.payload = reply.payload.take answer.respCap

theorem Exchange.read (hexchange : Exchange state) (hlocked : Locked state)
    (hanswered : Answered state) (client : ℕ) :
    Exchange (state.read client) ∧ Answered (state.read client) := by
  unfold State.read
  cases hphase : state.clients client with
  | receiving call got =>
    have hreads : (state.clients client).reads = true := by
      rw [hphase]
      rfl
    have hholds := Phase.holds_of_reads hreads
    simp only
    generalize htaken : state.replyFifo.take ((framing Prod.fst).wanted got) = taken
    by_cases hnone : taken = []
    · rw [if_pos hnone]
      exact ⟨hexchange, hanswered⟩
    rw [if_neg hnone]
    have hsome : state.replyFifo ≠ [] := by
      rintro hempty
      rw [hempty, List.take_nil] at htaken
      exact hnone htaken.symm
    obtain ⟨reply, written, hreplied, hbytes⟩ := hexchange.part_of_receiving hphase hsome
    obtain ⟨hframe, hpre⟩ := read_within hbytes htaken
    have hsame := got_append_drop hbytes htaken
    rw [hframe.status_eq hpre]
    by_cases hmore : (got ++ taken).length < (tag call.id reply.encode).length
    · rw [if_pos hmore]
      refine ⟨?_, hanswered⟩
      have honly (other : ℕ) (hother : (Function.update state.clients client
          (.receiving call (got ++ taken)) other).reads = true) : other = client := by
        by_contra hne
        rw [Function.update_of_ne hne] at hother
        exact hne (hlocked.one other client (Phase.holds_of_reads hother) hholds)
      cases hexchange with
      | settled hsettled _ =>
        refine .settled hsettled fun other hother ↦ ?_
        change SettledClient _ (Function.update state.clients client _ other)
        rw [honly other hother, Function.update_self]
        exact Or.inr ⟨reply, written, hreplied, hsame⟩
      | requesting _ _ _ _ _ _ _ hempty _ => exact absurd hempty hsome
      | received _ _ _ _ _ hempty _ => exact absurd hempty hsome
      | replying id sent count hdaemon hrequests hunanswered hsent hclients =>
        refine .replying id sent count hdaemon hrequests hunanswered hsent fun other hother ↦ ?_
        obtain ⟨own, before, hown, hid, hcount⟩ := hclients client hreads
        rw [hphase, Phase.receiving.injEq] at hown
        obtain ⟨rfl, rfl⟩ := hown
        refine ⟨call, got ++ taken, ?_, hid, got_append_drop hcount htaken⟩
        change Function.update state.clients client _ other = _
        rw [honly other hother, Function.update_self]
    · rw [if_neg hmore]
      have hwhole : got ++ taken = tag call.id reply.encode :=
        hpre.eq_of_length (Nat.le_antisymm hpre.length_le (Nat.le_of_not_lt hmore))
      refine ⟨hexchange.leave ?_ rfl rfl rfl rfl fun hempty ↦ absurd hempty hsome, ?_⟩
      · exact fun other ↦ hlocked.nobody hholds rfl rfl other
      · intro answer hanswer
        rcases List.mem_append.mp hanswer with hold | hnew
        · exact hanswered answer hold
        · obtain rfl := List.mem_singleton.mp hnew
          refine ⟨reply, hreplied, ?_⟩
          change Daemon.received call.respCap ((got ++ taken).map Prod.fst) = _
          rw [hwhole, map_fst_tag, received_encode]
  | _ => exact ⟨hexchange, hanswered⟩

/-! ### The daemon -/

section

variable (hexchange : Exchange state)

include hexchange

theorem Exchange.recv : Exchange state.recv := by
  unfold State.recv
  cases hdaemon : state.daemon with
  | idle =>
    refine hexchange.congr rfl ?_ (fun id reply written hreplying ↦ ?_) ?_ rfl rfl id
      fun _ _ ↦ ⟨rfl, rfl⟩
    · rw [hdaemon]
      rfl
    · exact absurd (hdaemon.symm.trans hreplying) Activity.noConfusion
    · rw [hdaemon]
      rfl
  | _ => exact hexchange

theorem Exchange.daemonGiveUp (hgot : state.daemon.got = []) :
    Exchange state.daemonGiveUp := by
  unfold State.daemonGiveUp
  cases hdaemon : state.daemon with
  | receiving got =>
    refine hexchange.congr rfl hgot.symm (fun id reply written hreplying ↦ ?_) ?_ rfl rfl id
      fun _ _ ↦ ⟨rfl, rfl⟩
    · exact absurd (hdaemon.symm.trans hreplying) Activity.noConfusion
    · rw [hdaemon]
      rfl
  | _ => exact hexchange

theorem Exchange.daemonRead : Exchange state.daemonRead := by
  unfold State.daemonRead
  cases hdaemon : state.daemon with
  | receiving got =>
    simp only
    generalize htaken : state.requestFifo.take ((framing Prod.fst).wanted got) = taken
    by_cases hnone : taken = []
    · rw [if_pos hnone]
      exact hexchange
    rw [if_neg hnone]
    have hsome : state.requestFifo ≠ [] := by
      rintro hempty
      rw [hempty, List.take_nil] at htaken
      exact hnone htaken.symm
    cases hexchange with
    | settled hsettled _ => exact absurd hsettled.1 hsome
    | received _ hempty _ _ _ _ _ => exact absurd hempty hsome
    | replying _ _ _ _ hempty _ _ _ => exact absurd hempty hsome
    | requesting call written hpositive hle hbytes hunanswered hreplies hempty hclients =>
      rw [hdaemon] at hbytes
      change got ++ state.requestFifo = _ at hbytes
      obtain ⟨hframe, hpre⟩ := read_within hbytes htaken
      have hsame := got_append_drop hbytes htaken
      rw [hframe.status_eq hpre]
      by_cases hmore : (got ++ taken).length < (tag call.id call.request.encode).length
      · rw [if_pos hmore]
        exact .requesting call written hpositive hle hsame hunanswered rfl hempty hclients
      · rw [if_neg hmore]
        have hwhole : got ++ taken = tag call.id call.request.encode :=
          hpre.eq_of_length (Nat.le_antisymm hpre.length_le (Nat.le_of_not_lt hmore))
        rw [hwhole] at hsame
        have hlength := congrArg List.length hsame
        simp only [List.length_append, tag, List.length_map, List.length_take] at hlength
        have hended : written = call.request.encode.length := by omega
        have hleft : state.requestFifo.drop taken.length = [] :=
          List.eq_nil_of_length_eq_zero (by omega)
        have hfirst : (got ++ taken).head?.map Prod.snd = some call.id := by
          obtain ⟨first, others, hencode⟩ :=
            List.exists_cons_of_length_pos (hended ▸ hpositive)
          rw [hwhole, hencode]
          rfl
        refine .received call.id hleft rfl ?_ rfl hempty fun client hreads ↦ ?_
        · change state.unanswered ++ _ = _
          rw [hunanswered, hfirst]
          rfl
        · rcases hclients client hreads with ⟨-, hlt⟩ | ⟨hown, -⟩
          · exact absurd hended (Nat.ne_of_lt hlt)
          · exact ⟨call, hown, rfl⟩
  | _ => exact hexchange

/-- The request that waits for an answer is the one under way. -/
theorem Exchange.waiting {id : ℕ} (hmem : id ∈ state.unanswered) :
    state.requestFifo = [] ∧ state.unanswered.erase id = [] ∧ state.replyFifo = [] ∧
      ∀ client, (state.clients client).reads = true →
        ∃ call, state.clients client = .receiving call [] ∧ call.id = id := by
  cases hexchange with
  | settled hsettled _ =>
    rw [hsettled.2.2.1] at hmem
    exact absurd hmem List.not_mem_nil
  | requesting _ _ _ _ _ hunanswered _ _ _ =>
    rw [hunanswered] at hmem
    exact absurd hmem List.not_mem_nil
  | replying _ _ _ _ _ hunanswered _ _ =>
    rw [hunanswered] at hmem
    exact absurd hmem List.not_mem_nil
  | received only hrequests _ hunanswered _ hempty hclients =>
    rw [hunanswered] at hmem ⊢
    obtain rfl := List.mem_singleton.mp hmem
    exact ⟨hrequests, List.erase_cons_head .., hempty, hclients⟩

/-- The reply that is written is the one to the request under way. -/
theorem Exchange.answering {id written : ℕ} {reply : Message}
    (hdaemon : state.daemon = .replying id reply written) :
    state.requestFifo = [] ∧ state.unanswered = [] ∧ (id, reply) ∈ state.replied ∧
      ∀ client, (state.clients client).reads = true →
        ∃ call got, state.clients client = .receiving call got ∧ call.id = id ∧
          got ++ state.replyFifo = tag id (reply.encode.take written) := by
  have hreplies (hnone : state.daemon.replies = false) : False := by
    rw [hdaemon] at hnone
    exact absurd hnone.symm Bool.false_ne_true
  cases hexchange with
  | settled hsettled _ => exact (hreplies hsettled.2.2.2).elim
  | requesting _ _ _ _ _ _ hnone _ _ => exact (hreplies hnone).elim
  | received _ _ _ _ hnone _ _ => exact (hreplies hnone).elim
  | replying other sent count hown hrequests hunanswered hreplied hclients =>
    rw [hdaemon, Activity.replying.injEq] at hown
    obtain ⟨rfl, rfl, rfl⟩ := hown
    exact ⟨hrequests, hunanswered, hreplied, hclients⟩

theorem Exchange.reply (id : ℕ) (reply : Message) : Exchange (state.reply id reply) := by
  unfold State.reply
  cases state.daemon with
  | idle =>
    simp only
    by_cases hmem : id ∈ state.unanswered
    · rw [if_pos hmem]
      obtain ⟨hrequests, hunanswered, hempty, hclients⟩ := hexchange.waiting hmem
      refine .replying id reply 0 rfl hrequests hunanswered ?_ fun client hreads ↦ ?_
      · exact List.mem_append_right _ (List.mem_singleton_self _)
      · obtain ⟨call, hown, hid⟩ := hclients client hreads
        exact ⟨call, [], hown, hid, hempty⟩
    · rw [if_neg hmem]
      exact hexchange
  | _ => exact hexchange

theorem Exchange.replyFails (id : ℕ) : Exchange (state.replyFails id) := by
  unfold State.replyFails
  cases hdaemon : state.daemon with
  | idle =>
    simp only
    by_cases hmem : id ∈ state.unanswered
    · obtain ⟨hrequests, hunanswered, hempty, hclients⟩ := hexchange.waiting hmem
      refine .settled ⟨hrequests, rfl, hunanswered, rfl⟩ fun client hreads ↦ ?_
      obtain ⟨call, hown, hid⟩ := hclients client hreads
      change SettledClient _ (state.clients client)
      rw [hown]
      exact Or.inl hempty
    · rw [List.erase_of_not_mem hmem, ← hdaemon]
      exact hexchange
  | _ => exact hexchange

theorem Exchange.closeReply (hlocked : Locked state) : Exchange state.closeReply := by
  unfold State.closeReply
  cases hdaemon : state.daemon with
  | replying id reply written =>
    obtain ⟨hrequests, hunanswered, hreplied, hclients⟩ := hexchange.answering hdaemon
    refine .settled ⟨hrequests, rfl, hunanswered, rfl⟩ fun client hreads ↦ ?_
    change (state.clients client).reads = true at hreads
    have hreaders : state.readers = 1 := by
      rw [(hlocked.ends client (Phase.holds_of_reads hreads)).1, hreads]
      rfl
    have hkept : (state.closeEnds 0 1).replyFifo = state.replyFifo := by
      refine if_neg fun hclosed ↦ ?_
      rw [hreaders] at hclosed
      exact Nat.one_ne_zero hclosed.1
    obtain ⟨call, got, hphase, rfl, hbytes⟩ := hclients client hreads
    change SettledClient _ (state.clients client)
    rw [hphase]
    refine Or.inr ⟨reply, written, hreplied, ?_⟩
    change got ++ (state.closeEnds 0 1).replyFifo = _
    rw [hkept]
    exact hbytes
  | _ => exact hexchange

theorem Exchange.writeReply (hlocked : Locked state) (capacity : ℕ) :
    Exchange (state.writeReply capacity) := by
  unfold State.writeReply
  cases hdaemon : state.daemon with
  | replying id reply written =>
    simp only
    by_cases hreaders : state.readers = 0
    · rw [if_pos hreaders]
      exact hexchange.closeReply hlocked
    rw [if_neg hreaders]
    generalize min _ (capacity - state.replyFifo.length) = count
    obtain ⟨hrequests, hunanswered, hreplied, hclients⟩ := hexchange.answering hdaemon
    refine .replying id reply (written + count) rfl hrequests hunanswered hreplied
      fun client hreads ↦ ?_
    obtain ⟨call, got, hphase, hid, hbytes⟩ := hclients client hreads
    refine ⟨call, got, hphase, hid, ?_⟩
    change got ++ (state.replyFifo ++ _) = _
    rw [tag_take_add, ← List.append_assoc, hbytes]
  | _ => exact hexchange

end

/-! ### Runs -/

/-- A client that has not opened the reply FIFO, or closes it. -/
theorem Exchange.aside (hexchange : Exchange state) (hlocked : Locked state) (client : ℕ) :
    (∀ request respCap, Exchange (state.begin client request respCap)) ∧
      Exchange (state.lockTimeout client) ∧ Exchange (state.acquire client) ∧
      Exchange (state.openFails client) ∧ Exchange (state.writeFails client) ∧
      Exchange (state.giveUp client) ∧ Exchange (state.release client) := by
  unfold State.begin State.lockTimeout State.acquire State.openFails State.writeFails State.giveUp
    State.release
  have hleaves (ends writers : ℕ) (hholds : (state.clients client).holds = true) :
      Exchange ((state.closeEnds ends writers).setClient client .leaving) :=
    hexchange.leave (hlocked.nobody hholds rfl rfl) rfl rfl rfl rfl (closeEnds_empty ends writers)
  cases hphase : state.clients client with
  | idle =>
    refine ⟨fun request respCap ↦ ?_, hexchange, hexchange, hexchange, hexchange, hexchange,
      hexchange⟩
    split_ifs
    · exact hexchange
    · exact hexchange.outside rfl rfl rfl rfl rfl rfl rfl
  | locking call =>
    refine ⟨fun request respCap ↦ ?_, hexchange.outside rfl rfl rfl rfl rfl rfl rfl, ?_, hexchange,
      hexchange, hexchange, hexchange⟩
    · split_ifs <;> exact hexchange
    · simp only
      split_ifs
      · exact hexchange
      · exact hexchange.outside rfl rfl rfl rfl rfl rfl rfl
  | locked call =>
    refine ⟨fun request respCap ↦ ?_, hexchange, hexchange,
      hexchange.outside rfl rfl rfl rfl rfl rfl rfl, hexchange, hexchange, hexchange⟩
    split_ifs <;> exact hexchange
  | opened call =>
    refine ⟨fun request respCap ↦ ?_, hexchange, hexchange, hleaves 1 0 (by rw [hphase]; rfl),
      hexchange, hexchange, hexchange⟩
    split_ifs <;> exact hexchange
  | writing call written =>
    refine ⟨fun request respCap ↦ ?_, hexchange, hexchange, hexchange,
      hleaves 1 1 (by rw [hphase]; rfl), hexchange, hexchange⟩
    split_ifs <;> exact hexchange
  | receiving call got =>
    refine ⟨fun request respCap ↦ ?_, hexchange, hexchange, hexchange, hexchange,
      hleaves 1 1 (by rw [hphase]; rfl), hexchange⟩
    split_ifs <;> exact hexchange
  | leaving =>
    refine ⟨fun request respCap ↦ ?_, hexchange, hexchange, hexchange, hexchange, hexchange,
      hexchange.outside rfl rfl rfl rfl rfl rfl rfl⟩
    split_ifs <;> exact hexchange

/-- A permitted event keeps the exchange. -/
theorem Exchange.step (hexchange : Exchange state) (hlocked : Locked state)
    (hanswered : Answered state) (capacity : ℕ) (hpermitted : Permitted state event) :
    Exchange (state.step capacity event) := by
  obtain ⟨hopens, hgivesUp⟩ := hpermitted
  cases event with
  | begin client request respCap => exact (hexchange.aside hlocked client).1 request respCap
  | lockTimeout client => exact (hexchange.aside hlocked client).2.1
  | acquire client => exact (hexchange.aside hlocked client).2.2.1
  | openReader client => exact hexchange.openReader hlocked (hopens rfl) client
  | openFails client => exact (hexchange.aside hlocked client).2.2.2.1
  | openWriter client => exact hexchange.openWriter hlocked client
  | write client => exact hexchange.write hlocked capacity client
  | writeFails client => exact (hexchange.aside hlocked client).2.2.2.2.1
  | read client => exact (hexchange.read hlocked hanswered client).1
  | giveUp client => exact (hexchange.aside hlocked client).2.2.2.2.2.1
  | release client => exact (hexchange.aside hlocked client).2.2.2.2.2.2
  | recv => exact hexchange.recv
  | daemonRead => exact hexchange.daemonRead
  | daemonGiveUp => exact hexchange.daemonGiveUp (hgivesUp rfl)
  | reply id reply => exact hexchange.reply id reply
  | replyFails id => exact hexchange.replyFails id
  | writeReply => exact hexchange.writeReply hlocked capacity
  | closeReply => exact hexchange.closeReply hlocked

/-- No other event than the read of a client adds an answer, and a reply that was sent stays
sent. -/
theorem answers_step (capacity : ℕ) (hread : ∀ client, event ≠ .read client) :
    (state.step capacity event).answers = state.answers ∧
      state.replied ⊆ (state.step capacity event).replied := by
  have hclose : state.closeReply.answers = state.answers ∧
      state.replied ⊆ state.closeReply.replied := by
    unfold State.closeReply
    split <;> exact ⟨rfl, fun _ hsent ↦ hsent⟩
  cases event with
  | read client => exact absurd rfl (hread client)
  | reply id reply =>
    simp only [State.step]
    unfold State.reply
    split
    · split_ifs
      · exact ⟨rfl, fun _ hsent ↦ List.mem_append_left _ hsent⟩
      · exact ⟨rfl, fun _ hsent ↦ hsent⟩
    · exact ⟨rfl, fun _ hsent ↦ hsent⟩
  | closeReply => exact hclose
  | writeReply =>
    simp only [State.step]
    unfold State.writeReply
    split
    · dsimp only
      by_cases hreaders : state.readers = 0
      · rw [if_pos hreaders]
        exact hclose
      · rw [if_neg hreaders]
        exact ⟨rfl, fun _ hsent ↦ hsent⟩
    · exact ⟨rfl, fun _ hsent ↦ hsent⟩
  | begin client request respCap =>
    simp only [State.step]
    unfold State.begin
    split_ifs
    · exact ⟨rfl, fun _ hsent ↦ hsent⟩
    · split <;> exact ⟨rfl, fun _ hsent ↦ hsent⟩
  | lockTimeout client =>
    simp only [State.step]
    unfold State.lockTimeout
    split <;> exact ⟨rfl, fun _ hsent ↦ hsent⟩
  | acquire client =>
    simp only [State.step]
    unfold State.acquire
    split
    · split_ifs <;> exact ⟨rfl, fun _ hsent ↦ hsent⟩
    · exact ⟨rfl, fun _ hsent ↦ hsent⟩
  | openReader client =>
    simp only [State.step]
    unfold State.openReader
    split <;> exact ⟨rfl, fun _ hsent ↦ hsent⟩
  | openFails client =>
    simp only [State.step]
    unfold State.openFails
    split <;> exact ⟨rfl, fun _ hsent ↦ hsent⟩
  | openWriter client =>
    simp only [State.step]
    unfold State.openWriter
    split <;> exact ⟨rfl, fun _ hsent ↦ hsent⟩
  | write client =>
    simp only [State.step]
    unfold State.write
    split
    · dsimp only
      split_ifs <;> exact ⟨rfl, fun _ hsent ↦ hsent⟩
    · exact ⟨rfl, fun _ hsent ↦ hsent⟩
  | writeFails client =>
    simp only [State.step]
    unfold State.writeFails
    split <;> exact ⟨rfl, fun _ hsent ↦ hsent⟩
  | giveUp client =>
    simp only [State.step]
    unfold State.giveUp
    split <;> exact ⟨rfl, fun _ hsent ↦ hsent⟩
  | release client =>
    simp only [State.step]
    unfold State.release
    split <;> exact ⟨rfl, fun _ hsent ↦ hsent⟩
  | recv =>
    simp only [State.step]
    unfold State.recv
    split <;> exact ⟨rfl, fun _ hsent ↦ hsent⟩
  | daemonRead =>
    simp only [State.step]
    unfold State.daemonRead
    split
    · dsimp only
      split_ifs
      · exact ⟨rfl, fun _ hsent ↦ hsent⟩
      · split <;> exact ⟨rfl, fun _ hsent ↦ hsent⟩
    · exact ⟨rfl, fun _ hsent ↦ hsent⟩
  | daemonGiveUp =>
    simp only [State.step]
    unfold State.daemonGiveUp
    split <;> exact ⟨rfl, fun _ hsent ↦ hsent⟩
  | replyFails id =>
    simp only [State.step]
    unfold State.replyFails
    split <;> exact ⟨rfl, fun _ hsent ↦ hsent⟩

/-- What holds between the events of a permitted run. -/
structure Orderly (state : State) : Prop where
  locked : Locked state
  exchange : Exchange state
  answered : Answered state

/-- Each permitted event keeps the order. -/
theorem Orderly.step (horderly : Orderly state) (capacity : ℕ)
    (hpermitted : Permitted state event) :
    Orderly (state.step capacity event) := by
  obtain ⟨hlocked, hexchange, hanswered⟩ := horderly
  refine ⟨hlocked.step capacity event, hexchange.step hlocked hanswered capacity hpermitted, ?_⟩
  by_cases hread : ∃ client, event = .read client
  · obtain ⟨client, rfl⟩ := hread
    exact (hexchange.read hlocked hanswered client).2
  · obtain ⟨hanswers, hreplied⟩ : (state.step capacity event).answers = state.answers ∧
        state.replied ⊆ (state.step capacity event).replied :=
      answers_step capacity (not_exists.mp hread)
    intro answer hanswer
    rw [hanswers] at hanswer
    obtain ⟨reply, hsent, hpayload⟩ := hanswered answer hanswer
    exact ⟨reply, hreplied hsent, hpayload⟩

theorem orderly_start : Orderly .start where
  locked := ⟨fun _ h ↦ absurd h Bool.false_ne_true, fun _ _ h ↦ absurd h Bool.false_ne_true,
    fun _ h ↦ absurd h Bool.false_ne_true, fun _ ↦ ⟨rfl, rfl⟩, Nat.le_refl 0, fun _ _ ↦ rfl⟩
  exchange := .settled ⟨rfl, rfl, rfl, rfl⟩ fun _ h ↦ absurd h Bool.false_ne_true
  answered := fun _ h ↦ absurd h List.not_mem_nil

/-- In a run of permitted events at most one client is between lock acquisition and release, and
each call that returns a reply returns one that the daemon has sent to its own request, cut off at
the length of the buffer. -/
theorem own_answer {events : List Event}
    (hrun : Run (Guarded Permitted (Moves (State.step capacity))) .start events state) :
    (∀ first second, (state.clients first).holds = true → (state.clients second).holds = true →
      first = second) ∧
      ∀ answer ∈ state.answers, ∃ reply, (answer.id, reply) ∈ state.replied ∧
        answer.payload = reply.payload.take answer.respCap := by
  have horderly : Orderly state := by
    refine hrun.guarded_invariant ?_ orderly_start
    rintro before event after hbefore hpermitted rfl
    exact hbefore.step capacity hpermitted
  exact ⟨horderly.locked.one, horderly.answered⟩

def byteMessage (byte : UInt8) (wantsReply : ℕ) : Message where
  payload := [byte]
  wantsReply := wantsReply
  replyPath := List.replicate EYN_DAEMON_PATH_MAX 47
  payload_lt := (by decide : 1 < 4294967296)
  path_length := List.length_replicate

/-- A client sends its request, the daemon receives it, and the client gives up waiting. -/
def lateEvents : List Event :=
  [.begin 1 (byteMessage 10 1) 16, .acquire 1, .openReader 1, .openWriter 1, .write 1, .recv,
    .daemonRead, .daemonRead, .giveUp 1, .release 1]

/-- The reply is dropped as nobody has the reading end, and the next client gets its own. -/
def nextEvents : List Event :=
  lateEvents ++ [.reply 0 (byteMessage 20 0), .writeReply, .begin 2 (byteMessage 11 1) 16,
    .acquire 2, .openReader 2, .openWriter 2, .write 2, .recv, .daemonRead, .daemonRead,
    .reply 1 (byteMessage 21 0), .writeReply, .read 2, .writeReply, .read 2, .closeReply,
      .release 2]

/-- What holds after these events. -/
theorem own_answer_next :
    let state := nextEvents.foldl (State.step 4096) .start
    (∀ first second, (state.clients first).holds = true → (state.clients second).holds = true →
      first = second) ∧
      ∀ answer ∈ state.answers, ∃ reply, (answer.id, reply) ∈ state.replied ∧
        answer.payload = reply.payload.take answer.respCap :=
  own_answer (Run.of_allowed (by decide +kernel))

/-- The next client opens the reply FIFO before the daemon replies to the first one. -/
def staleEvents : List Event :=
  lateEvents ++ [.begin 2 (byteMessage 11 1) 16, .acquire 2, .openReader 2, .openWriter 2, .write 2,
    .reply 0 (byteMessage 20 0), .writeReply, .writeReply, .read 2, .read 2]

/-- The second call returns the reply to the first one. -/
theorem not_own_answer :
    ¬ ∀ (capacity : ℕ) (events : List Event) (state : State),
      Run (Moves (State.step capacity)) .start events state →
        ∀ answer ∈ state.answers, ∃ reply, (answer.id, reply) ∈ state.replied ∧
          answer.payload = reply.payload.take answer.respCap := by
  intro hclaim
  have hreturned : (staleEvents.foldl (State.step 4096) .start).answers.map Answer.id = [1] := by
    decide +kernel
  have hreplied : (staleEvents.foldl (State.step 4096) .start).replied.map Prod.fst = [0] := by
    decide +kernel
  have hrun := Run.of_foldl (State.step 4096) .start staleEvents
  generalize staleEvents.foldl (State.step 4096) .start = state at hreturned hreplied hrun
  obtain ⟨answer, hanswer, hid⟩ := List.mem_map.mp (hreturned.symm ▸ List.mem_singleton_self 1)
  obtain ⟨reply, hsent, -⟩ := hclaim 4096 staleEvents state hrun answer hanswer
  have hown : answer.id ∈ state.replied.map Prod.fst := List.mem_map_of_mem hsent
  rw [hreplied, hid] at hown
  exact absurd hown (by decide)

end EynOS.Daemon.Calls
