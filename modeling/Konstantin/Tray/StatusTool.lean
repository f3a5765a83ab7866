import Konstantin.Daemon.Conversation
import Konstantin.Tray.Display
import Konstantin.Tray.Subscription

/-!
# The command line client

`fetch_status` and `Subscription::open` of `crates/tray/src/lib.rs`, and `main` of
`crates/tray/src/bin/status.rs`, at the other end of `handle_connection`.  The lines are
those on the standard output; what goes to the standard error is left out.
-/

namespace Konstantin
namespace Tray

open Daemon Streams Proto Display

/-! ## The two ways to ask -/

/-- `fetch_status` behind the connect, with the bytes that it sends. -/
def fetchStatus (debug : Response → String) (codec : Codec Request) (answers : Codec Response)
    (reply : Chunks UInt8) : Except String UserStatus × List UInt8 :=
  match writeFrame codec .getStatus [] with
  | (.error _, out) => (.error "sending GetStatus", out)
  | (.ok (), out) =>
    match (readFrame answers reply).1 with
    | .error _ => (.error "reading response", out)
    | .ok (.status s) => (.ok s, out)
    | .ok (.error message) => (.error ("daemon error: " ++ message), out)
    | .ok other => (.error ("unexpected response: " ++ debug other), out)

/-- `Subscription::open` behind the connect. -/
def Subscription.open (codec : Codec Request) : Except String Unit × List UInt8 :=
  match writeFrame codec .subscribe [] with
  | (.error _, out) => (.error "sending Subscribe", out)
  | (.ok (), out) => (.ok (), out)

/-! ## The lines -/

inductive Exit where
  | code (n : Nat)
  | crashed
  deriving DecidableEq

structure Output where
  lines : List String
  exit : Option Exit
  deriving DecidableEq

namespace StatusTool

/-- `{:?}`. -/
def debugState : SessionState → String
  | .active => "Active"
  | .paused => "Paused"
  | .limitReached => "LimitReached"
  | .offline => "Offline"
  | .notConfigured => "NotConfigured"

/-- `x as i64`. -/
def remainingText (b : Build) (calls : Nat) (n : Int64) : Except Exit String :=
  match formatRemaining b calls n with
  | some text => .ok text
  | none => .error .crashed

def printStatusCompact (b : Build) (calls : Nat) (now : String) (status : UserStatus) :
    Except Exit String := do
  let used ← remainingText b calls (asI64 status.usedSeconds)
  let remaining ← remainingText b calls (remainingOf status)
  return "[" ++ now ++ "] " ++ status.username ++ " state=" ++ debugState status.state ++
    " used=" ++ used ++ " remaining=" ++ remaining

/-- `date` is `%Y-%m-%d %H:%M:%S %z`. -/
def printStatusBlock (b : Build) (calls : Nat) (date : Int → String) (status : UserStatus) :
    Except Exit String := do
  let daily ← remainingText b calls (asI64 status.dailyLimitSeconds)
  let used ← remainingText b calls (asI64 status.usedSeconds)
  let remaining ← remainingText b calls (remainingOf status)
  return "user      : " ++ status.username ++ " (uid " ++ toString status.uid.toNat ++ ")\n" ++
    "state     : " ++ debugState status.state ++ "\n" ++
    "daily     : " ++ daily ++ "\n" ++
    "used      : " ++ used ++ "\n" ++
    "remaining : " ++ remaining ++ "\n" ++
    "resets_at : " ++ date status.resetsAt

/-- The loop of `--watch`, `none` when it is not done after so many rounds.  `print n` is
the line of the `n`-th update. -/
def watch (debug : Response → String) (answers : Codec Response)
    (print : Nat → UserStatus → Except Exit String) : Nat → Nat → Chunks UInt8 → Output
  | 0, _, _ => ⟨[], none⟩
  | rounds + 1, n, stream =>
    match Subscription.nextUpdate debug answers stream with
    | (.ok (some status), rest) =>
      match print n status with
      | .ok line =>
        let output := watch debug answers print rounds (n + 1) rest
        ⟨line :: output.lines, output.exit⟩
      | .error exit => ⟨[], some exit⟩
    | (.ok none, _) => ⟨[], some (.code 0)⟩
    | (.error _, _) => ⟨[], some (.code 2)⟩

/-- What the program is given: the socket, the two texts of `serde_json`, the clock and
the calendar. -/
structure Surroundings where
  connects : Bool
  toStringJson : UserStatus → Except Exit String
  toStringPretty : UserStatus → Except Exit String
  now : Nat → String
  date : Int → String

def main (b : Build) (calls : Nat) (debug : Response → String) (codec : Codec Request)
    (answers : Codec Response) (env : Surroundings) (args : List String) (rounds : Nat)
    (reply : Chunks UInt8) : Output :=
  let json := args.any fun a => a == "--json"
  if args.any fun a => a == "--watch" || a == "-w" then
    if env.connects && (Subscription.open codec).1.isOk then
      watch debug answers
        (fun n => if json then env.toStringJson else printStatusCompact b calls (env.now n))
        rounds 0 reply
    else ⟨[], some (.code 2)⟩
  else if env.connects then
    match (fetchStatus debug codec answers reply).1 with
    | .error _ => ⟨[], some (.code 2)⟩
    | .ok status =>
      match
        if json then env.toStringPretty status else printStatusBlock b calls env.date status
      with
      | .ok line => ⟨[line], some (.code 0)⟩
      | .error exit => ⟨[], some exit⟩
  else ⟨[], some (.code 2)⟩

/-! ## Lines of statuses that the daemon computed -/

section

variable (b : Build) (calls : Nat)

theorem remainingText_asI64 (n : UInt32) :
    ∃ text, remainingText b (calls + 1) (asI64 n) = .ok text := by
  have hvalue : (asI64 n).toInt = n.toNat := by
    have hn := n.toNat_lt
    exact Int64.toInt_ofInt_of_le (by omega) (by omega)
  refine ⟨durationText (asI64 n), ?_⟩
  rw [remainingText, formatRemaining_nonneg b (by omega)]

theorem remainingText_computeStatus (username : String) (uid : UInt32) (cfg : Config) (s : State)
    (resetsAt : Int) : ∃ text,
    remainingText b (calls + 2) (remainingOf (computeStatus username uid cfg s resetsAt)) =
      .ok text := by
  have hne := remainingOf_computeStatus_ne username uid cfg s resetsAt
  obtain ⟨text, htext, -⟩ := formatRemaining_exact b hne calls
  refine ⟨text, ?_⟩
  rw [remainingText, htext]

theorem printStatusCompact_computeStatus (now : String) (username : String) (uid : UInt32)
    (cfg : Config) (s : State) (resetsAt : Int) :
    ∃ line, printStatusCompact b (calls + 2) now
      (computeStatus username uid cfg s resetsAt) = .ok line := by
  obtain ⟨used, hused⟩ := remainingText_asI64 b (calls + 1)
    (computeStatus username uid cfg s resetsAt).usedSeconds
  obtain ⟨remaining, hremaining⟩ :=
    remainingText_computeStatus b calls username uid cfg s resetsAt
  rw [printStatusCompact, hused, hremaining]
  exact ⟨_, rfl⟩

theorem printStatusBlock_computeStatus (date : Int → String) (username : String) (uid : UInt32)
    (cfg : Config) (s : State) (resetsAt : Int) : ∃ line,
    printStatusBlock b (calls + 2) date (computeStatus username uid cfg s resetsAt) = .ok line := by
  obtain ⟨daily, hdaily⟩ := remainingText_asI64 b (calls + 1)
    (computeStatus username uid cfg s resetsAt).dailyLimitSeconds
  obtain ⟨used, hused⟩ := remainingText_asI64 b (calls + 1)
    (computeStatus username uid cfg s resetsAt).usedSeconds
  obtain ⟨remaining, hremaining⟩ :=
    remainingText_computeStatus b calls username uid cfg s resetsAt
  rw [printStatusBlock, hdaily, hused, hremaining]
  exact ⟨_, rfl⟩

end

/-! ## What is read is what is printed -/

/-- The exit at the read that failed. -/
def exitOf (e : FrameError) : Exit := .code (if e = .closed then 0 else 2)

theorem watch_reads {debug : Response → String} {answers : Codec Response}
    {print : Nat → UserStatus → Except Exit String} {status : Nat → UserStatus}
    (hprint : ∀ k, ∃ line, print k (status k) = .ok line) {e : FrameError} {rest : Chunks UInt8}
    {m n rounds : Nat} {stream : Chunks UInt8} (hrounds : m < rounds)
    (hreads : readFrames answers (m + 1) stream =
      (((List.range' n m).map fun k => .ok (.statusUpdate (status k))) ++ [.error e], rest)) :
    ∃ lines, watch debug answers print rounds n stream = ⟨lines, some (exitOf e)⟩ ∧
      lines.map .ok = (List.range' n m).map fun k => print k (status k) := by
  induction m generalizing n rounds stream with
  | zero =>
    obtain ⟨rounds, rfl⟩ := Nat.exists_eq_succ_of_ne_zero (Nat.ne_of_gt hrounds)
    have hread : (readFrame answers stream).1 = .error e :=
      (List.cons.inj (Prod.mk.inj hreads).1).1
    refine ⟨[], ?_, rfl⟩
    rw [watch, Subscription.nextUpdate, hread]
    cases e <;> rfl
  | succ m ih =>
    obtain ⟨rounds, rfl⟩ := Nat.exists_eq_succ_of_ne_zero (Nat.ne_zero_of_lt hrounds)
    rw [List.range'_succ, List.map_cons, List.cons_append, readFrames] at hreads
    obtain ⟨hread, hrest⟩ := List.cons.inj (Prod.mk.inj hreads).1
    obtain ⟨line, hline⟩ := hprint n
    obtain ⟨lines, hwatch, hlines⟩ := ih (n := n + 1) (Nat.lt_of_succ_lt_succ hrounds)
      (Prod.ext hrest (Prod.mk.inj hreads).2)
    refine ⟨line :: lines, ?_, ?_⟩
    · rw [watch, Subscription.nextUpdate, hread]
      dsimp only [Subscription.update]
      rw [hline]
      dsimp only
      rw [hwatch]
    · rw [List.map_cons, List.range'_succ, List.map_cons, hlines, hline]

/-! ## Against the daemon -/

section

variable {answers : Codec Response}

theorem takeWhile_range' (p : Response → Bool) (f : Nat → Response) (n m : Nat) :
    ∃ j, j ≤ m ∧ ((List.range' n m).map f).takeWhile p = (List.range' n j).map f := by
  rw [List.takeWhile_map]
  have hprefix := List.takeWhile_prefix (p ∘ f) (l := List.range' n m)
  have hle := hprefix.length_le
  rw [List.length_range'] at hle
  refine ⟨_, hle, ?_⟩
  rw [List.prefix_iff_eq_take.mp hprefix, List.take_range'_of_length_ge hle, List.length_range']

theorem sent_of_fits {rs : List Response} (h : ∀ r ∈ rs, fits answers r = true) :
    (sent answers rs).map Prod.fst = rs := by
  induction rs with
  | nil => rfl
  | cons r rs ih =>
    rw [sent_cons, List.map_append, ih fun t ht => h t (List.mem_cons_of_mem r ht)]
    rcases sent_one answers r [] with ⟨payload, hsent, -⟩ | ⟨-, e, hw⟩
    · rw [hsent]
      rfl
    · have hfits := h r List.mem_cons_self
      rw [fits, hw] at hfits
      cases hfits

/-- The updates of a stream that breaks off, as they are read. -/
theorem readFrames_updates (status : Nat → UserStatus) (m cut : Nat) {reply : Chunks UInt8}
    (h : reply.bytes =
      (delivered answers ((List.range' 0 m).map fun k => .statusUpdate (status k)) []).take cut) :
    let got := ((List.range' 0 m).map fun k => Response.statusUpdate (status k)).takeWhile
      (fits answers)
    (cutFrames answers got cut).1 ≤ m ∧
      readFrames answers ((cutFrames answers got cut).1 + 1) reply =
        (((List.range' 0 (cutFrames answers got cut).1).map fun k =>
            .ok (.statusUpdate (status k))) ++
          [.error (endOf answers (cutFrames answers got cut).2)], []) := by
  intro got
  have hall : ∀ r ∈ got, fits answers r = true := fun _ hr => List.mem_takeWhile_imp hr
  have hread := readFrames_written_cut answers got cut h
  obtain ⟨j, hj, htake⟩ := takeWhile_range' (fits answers)
    (fun k => Response.statusUpdate (status k)) 0 m
  have hgot : got = (List.range' 0 j).map fun k => .statusUpdate (status k) := htake
  have hle : (cutFrames answers got cut).1 ≤ j := by
    have hcut := cutAt_le ((sent answers got).map Prod.snd) cut
    have hlength := congrArg List.length ((sent_of_fits hall).trans hgot)
    rw [List.length_map, List.length_map, List.length_range'] at hlength
    rw [List.length_map] at hcut
    unfold cutFrames
    omega
  have hfirst : ((sent answers got).take (cutFrames answers got cut).1).map Prod.fst =
      (List.range' 0 (cutFrames answers got cut).1).map fun k => .statusUpdate (status k) := by
    have hwhole := congrArg (List.take (cutFrames answers got cut).1) hgot
    rw [← List.map_take, List.take_range'_of_length_ge hle] at hwhole
    rw [List.map_take, sent_of_fits hall, hwhole]
  refine ⟨hle.trans hj, ?_⟩
  have hok := congrArg (List.map (Except.ok (ε := FrameError))) hfirst
  rw [List.map_map, List.map_map] at hok
  rw [hread]
  exact congrArg (fun rs => (rs ++ [_], [])) hok

end

/-- The `--watch` of a client that is cut off at any byte prints one line for each update
that arrives whole, in their order, and its exit is an error unless the end is told as
a close of the daemon. -/
theorem watch_daemon (b : Build) (calls : Nat) (debug : Response → String)
    (codec : Codec Request) (answers : Codec Response) (env : Surroundings) (args : List String)
    (username : String) (uid : UInt32) (cfg : Config) (states : Nat → State) (resets : Nat → Int)
    (events : List Wakeup) (cut rounds : Nat) (stream reply : Chunks UInt8)
    (hwatch : "--watch" ∈ args ∨ "-w" ∈ args) (hjson : "--json" ∉ args)
    (hconnects : env.connects = true) (hopen : (Subscription.open codec).1 = .ok ())
    (hstream : stream.bytes = (Subscription.open codec).2)
    (hreply : reply.bytes = (converse codec answers
      (fun n => computeStatus username uid cfg (states n) (resets n)) events 2 0 stream []).2.take
        cut)
    (hrounds : wakes events + 1 < rounds) :
    let status := fun n => computeStatus username uid cfg (states n) (resets n)
    let written := ((List.range' 0 (wakes events + 1)).map fun n =>
      Response.statusUpdate (status n)).takeWhile (fits answers)
    ∃ lines, main b (calls + 2) debug codec answers env args rounds reply =
        ⟨lines, some (.code (if (cutFrames answers written cut).2 < 4 then 0 else 2))⟩ ∧
      lines.map .ok = (List.range' 0 (cutFrames answers written cut).1).map fun n =>
        printStatusCompact b (calls + 2) (env.now n) (status n) := by
  intro status written
  have hsubscribe : (writeFrame codec .subscribe []).1 = .ok () ∧
      (Subscription.open codec).2 = (writeFrame codec .subscribe []).2 := by
    rcases writeFrame_cases codec .subscribe [] with ⟨payload, -, -, hw⟩ | ⟨e, hw⟩
    · rw [Subscription.open, hw]
      exact ⟨rfl, rfl⟩
    · rw [Subscription.open, hw] at hopen
      cases hopen
  obtain ⟨hreads, hwritten⟩ := reads_one hsubscribe.1
  have hout := converse_written answers (List.pairwise_singleton _ .subscribe)
    (hstream.trans (hsubscribe.2.trans hwritten.symm)) Nat.one_lt_two status events 0 []
  have hupdates : responses status events 0 [.ok .subscribe, .error .closed] =
      (List.range' 0 (wakes events + 1)).map fun n => .statusUpdate (status n) := by
    rw [responses, updates_eq, List.range'_succ, List.map_cons]
  rw [hreads, hupdates] at hout
  obtain ⟨hle, hread⟩ := readFrames_updates status (wakes events + 1) cut
    (hreply.trans (congrArg (List.take cut) hout))
  have hprint : ∀ n, ∃ line, printStatusCompact b (calls + 2) (env.now n) (status n) = .ok line :=
    fun n => printStatusCompact_computeStatus b calls (env.now n) username uid cfg _ _
  obtain ⟨lines, hlines, hmap⟩ := watch_reads hprint
    (Nat.lt_of_le_of_lt hle hrounds) hread
  refine ⟨lines, ?_, hmap⟩
  have hflag : (args.any fun a => a == "--watch" || a == "-w") = true := by
    rw [List.any_eq_true]
    rcases hwatch with h | h
    · exact ⟨_, h, rfl⟩
    · exact ⟨_, h, rfl⟩
  have hplain : (args.any fun a => a == "--json") = false := by
    rw [List.any_eq_false]
    intro a ha heq
    exact hjson (beq_iff_eq.mp heq ▸ ha)
  have hexit : exitOf (endOf answers (cutFrames answers written cut).2) =
      .code (if (cutFrames answers written cut).2 < 4 then 0 else 2) := by
    simp only [exitOf, endOf_closed]
  rw [main, hflag, hplain, hconnects, hopen, ← hexit]
  exact hlines

def sampleSurroundings : Surroundings where
  connects := true
  toStringJson := fun _ => .error (.code 1)
  toStringPretty := fun _ => .error (.code 1)
  now := fun _ => "12:00:00"
  date := fun _ => "2026-01-01 00:00:00 +0000"

/-- A wake, and an end behind the length of the second update. -/
theorem watch_daemon_cut : ∃ lines reply, lines.length = 1 ∧
    main .release 2 (fun _ => "") sampleCodec
      (oneCodec (.statusUpdate (computeStatus "alice" 501 .defaults .fresh 0)) [1])
      sampleSurroundings ["konstantin-status", "--watch"] 3 reply = ⟨lines, some (.code 2)⟩ := by
  have hcut : cutFrames
      (oneCodec (.statusUpdate (computeStatus "alice" 501 .defaults .fresh 0)) [1])
      (((List.range' 0 2).map fun _ =>
        Response.statusUpdate (computeStatus "alice" 501 .defaults .fresh 0)).takeWhile
          (fits (oneCodec (.statusUpdate (computeStatus "alice" 501 .defaults .fresh 0)) [1])))
      9 = (1, 4) := by
    decide +kernel
  obtain ⟨lines, hmain, hlines⟩ := watch_daemon .release 0 (fun _ => "") sampleCodec
    (oneCodec (.statusUpdate (computeStatus "alice" 501 .defaults .fresh 0)) [1])
    sampleSurroundings ["konstantin-status", "--watch"] "alice" 501 .defaults (fun _ => .fresh)
    (fun _ => 0) [.woken 0, .channelClosed] 9 3 (Chunks.ofBytes (Subscription.open sampleCodec).2)
    (Chunks.ofBytes _) (by decide) (by decide) rfl (by decide +kernel) (Chunks.bytes_ofBytes _)
    (Chunks.bytes_ofBytes _) (by decide)
  have hlength := congrArg List.length hlines
  rw [List.length_map, List.length_map, List.length_range'] at hlength
  exact ⟨lines, _, hlength.trans (congrArg Prod.fst hcut),
    hmain.trans (by rw [show wakes [.woken 0, .channelClosed] + 1 = 2 from rfl, hcut]; rfl)⟩

theorem fetchStatus_error (debug : Response → String) (codec : Codec Request)
    {answers : Codec Response} {reply : Chunks UInt8} {e : FrameError}
    (h : (readFrame answers reply).1 = .error e) :
    ∃ message, (fetchStatus debug codec answers reply).1 = .error message := by
  unfold fetchStatus
  split
  · exact ⟨_, rfl⟩
  · rw [h]
    exact ⟨_, rfl⟩

theorem fetchStatus_ok {debug : Response → String} {codec : Codec Request}
    {answers : Codec Response} {reply : Chunks UInt8} {status : UserStatus}
    (hrequest : (writeFrame codec .getStatus []).1 = .ok ())
    (h : (readFrame answers reply).1 = .ok (.status status)) :
    (fetchStatus debug codec answers reply).1 = .ok status := by
  unfold fetchStatus
  split
  · rename_i hw
    rw [hw] at hrequest
    cases hrequest
  · rw [h]

/-- The bytes `fetch_status` sends do not depend on the reply. -/
theorem fetchStatus_sends {debug : Response → String} {codec : Codec Request}
    {answers : Codec Response} {reply : Chunks UInt8} :
    (fetchStatus debug codec answers reply).2 = (writeFrame codec .getStatus []).2 := by
  unfold fetchStatus
  split
  · rename_i hw
    rw [hw]
  · rename_i hw
    rw [hw]
    split <;> rfl

/-- The reply is one response that is cut off: it is read whole or not at all. -/
theorem readFrame_one {answers : Codec Response} (response : Response) {cut : Nat}
    {reply : Chunks UInt8} (h : reply.bytes = (writeFrame answers response []).2.take cut) :
    if fits answers response = true ∧ (writeFrame answers response []).2.length ≤ cut then
      (readFrame answers reply).1 = .ok response
    else ∃ e, (readFrame answers reply).1 = .error e := by
  rcases sent_one answers response [] with ⟨payload, -, hvec, hfits, hw⟩ | ⟨-, e, hw⟩
  · have hok : fits answers response = true := by
      rw [fits, hw]
      rfl
    have hframe : IsFrame answers (response, frame payload) :=
      ⟨payload, rfl, hfits, answers.decodes response payload hvec⟩
    rw [hw, List.nil_append] at h ⊢
    rw [← List.append_nil (frame payload)] at h
    rcases readFrame_first hframe h with ⟨hwhole, rest, hread, -⟩ | ⟨hlt, hread⟩
    · rw [if_pos ⟨hok, hwhole⟩, hread]
    · rw [if_neg fun hboth => Nat.not_le.mpr hlt hboth.2, hread]
      exact ⟨_, rfl⟩
  · have hno : fits answers response = false := by
      rw [fits, hw]
      rfl
    rw [hw] at h
    rw [hno, if_neg fun hboth => Bool.noConfusion hboth.1, readFrame_nothing answers h]
    exact ⟨_, rfl⟩

/-- Without `--watch` the status is printed if its frame fits and arrives whole, and
otherwise nothing is, and the exit is an error. -/
theorem oneShot_daemon (b : Build) (calls : Nat) (debug : Response → String)
    (codec : Codec Request) (answers : Codec Response) (env : Surroundings) (args : List String)
    (username : String) (uid : UInt32) (cfg : Config) (states : Nat → State) (resets : Nat → Int)
    (cut rounds : Nat) (stream reply : Chunks UInt8)
    (hwatch : "--watch" ∉ args ∧ "-w" ∉ args) (hjson : "--json" ∉ args)
    (hconnects : env.connects = true) (hrequest : (writeFrame codec .getStatus []).1 = .ok ())
    (hstream : stream.bytes = (fetchStatus debug codec answers reply).2)
    (hreply : reply.bytes = (converse codec answers
      (fun n => computeStatus username uid cfg (states n) (resets n)) [] 2 0 stream []).2.take
        cut) :
    let status := computeStatus username uid cfg (states 0) (resets 0)
    let frame := (writeFrame answers (.status status) []).2
    ∃ line, printStatusBlock b (calls + 2) env.date status = .ok line ∧
      main b (calls + 2) debug codec answers env args rounds reply =
        if fits answers (.status status) = true ∧ frame.length ≤ cut then ⟨[line], some (.code 0)⟩
        else ⟨[], some (.code 2)⟩ := by
  intro status frame
  obtain ⟨line, hline⟩ := printStatusBlock_computeStatus b calls env.date username uid cfg
    (states 0) (resets 0)
  refine ⟨line, hline, ?_⟩
  obtain ⟨hreads, hwritten⟩ := reads_one hrequest
  have hout := converse_written answers (List.pairwise_singleton _ .getStatus)
    (hstream.trans (fetchStatus_sends.trans hwritten.symm)) Nat.one_lt_two
    (fun n => computeStatus username uid cfg (states n) (resets n)) [] 0 []
  rw [hreads, responses, responses, delivered_one] at hout
  rw [hout] at hreply
  have hflag : (args.any fun a => a == "--watch" || a == "-w") = false := by
    rw [List.any_eq_false]
    intro a ha heq
    rcases Bool.or_eq_true_iff.mp heq with h | h
    · exact hwatch.1 (beq_iff_eq.mp h ▸ ha)
    · exact hwatch.2 (beq_iff_eq.mp h ▸ ha)
  have hplain : (args.any fun a => a == "--json") = false := by
    rw [List.any_eq_false]
    intro a ha heq
    exact hjson (beq_iff_eq.mp heq ▸ ha)
  have hread := readFrame_one (.status status) hreply
  rw [main, hflag, hplain, hconnects]
  split at hread
  · rename_i hwhole
    rw [if_pos hwhole, fetchStatus_ok hrequest hread]
    dsimp only
    rw [if_neg Bool.false_ne_true, if_pos rfl, if_neg Bool.false_ne_true, hline]
  · rename_i hwhole
    obtain ⟨e, he⟩ := hread
    obtain ⟨message, hfetch⟩ := fetchStatus_error debug codec he
    rw [if_neg hwhole, hfetch]
    rfl

theorem oneShot_daemon_whole : ∃ line reply,
    main .release 2 (fun _ => "") sampleCodec
      (oneCodec (.status (computeStatus "alice" 501 .defaults .fresh 0)) [1])
      sampleSurroundings ["konstantin-status"] 1 reply = ⟨[line], some (.code 0)⟩ := by
  have hwhole : fits (oneCodec (.status (computeStatus "alice" 501 .defaults .fresh 0)) [1])
        (.status (computeStatus "alice" 501 .defaults .fresh 0)) = true ∧
      (writeFrame (oneCodec (.status (computeStatus "alice" 501 .defaults .fresh 0)) [1])
        (.status (computeStatus "alice" 501 .defaults .fresh 0)) []).2.length ≤ 5 := by
    decide +kernel
  obtain ⟨line, -, hmain⟩ := oneShot_daemon .release 0 (fun _ => "") sampleCodec
    (oneCodec (.status (computeStatus "alice" 501 .defaults .fresh 0)) [1])
    sampleSurroundings ["konstantin-status"] "alice" 501 .defaults (fun _ => .fresh)
    (fun _ => 0) 5 1 (Chunks.ofBytes (frame getStatusText)) (Chunks.ofBytes _)
    (by decide) (by decide) rfl (by decide +kernel) (by decide +kernel) (Chunks.bytes_ofBytes _)
  exact ⟨line, _, hmain.trans (if_pos hwhole)⟩

end StatusTool
end Tray
end Konstantin
