import Orchestra.Console.Parts
import Orchestra.Proofs.Asking
import Orchestra.Proofs.Decoding
import Orchestra.Proofs.Staging

/-!
# The console forwards what is typed

* `Bus.handed_delivers`, `Bus.begins_delivers` — what a delivery hands to whom;
* `Console.SaysQuit`, `Console.Precede`, `Console.QuitsIn` — the lines of an input before `quit`, said of its bytes;
* `Precede.unique` — there is no choice about which these are;
* `Console.Follows` — what the worker may ask for while it follows the input; `Console.Forwards` — what that means for
  the gateway and for everybody else;
* `Follows.forwards` — the one implies the other, line after line;
* `Worker.recites` — the worker asks for what follows from the input, and comes to its end;
* `console_forwards_lines_before_quit` — so the lines before `quit` are forwarded, and no others.
-/

namespace Orchestra

open Machine

/-! ### What a delivery hands to whom -/

section Delivery

variable {A : Application} {α β : Type}

/-- The event that a listener is handed with an operation. -/
def Op.handedTo? (l : ListenerId) : Op A → Option Event
  | .call (.onEvent l' event) _ => if l' = l then some event else none
  | _ => none

/-- Whether an operation begins a delivery on a bus. -/
def Op.begins (b : BusId) : Op A → Bool
  | .beginDelivery b' => b' = b
  | _ => false

/-- Only one member of a set has a share in it. -/
theorem flatMap_eq_of_nodup {set : List α} {f : α → List β} {a : α} (hset : set.Nodup) (ha : a ∈ set)
    (hothers : ∀ b, b ≠ a → f b = []) : set.flatMap f = f a := by
  induction set with
  | nil => cases ha
  | cons b rest ih =>
    obtain ⟨hb, hrest⟩ := List.nodup_cons.1 hset
    rw [List.flatMap_cons]
    by_cases heq : b = a
    · subst heq
      have hnone : rest.flatMap f = [] := List.flatMap_eq_nil_iff.2 fun c hc =>
        hothers c fun hcb => hb (hcb ▸ hc)
      rw [hnone, List.append_nil]
    · rw [hothers b heq, List.nil_append]
      exact ih hrest ((List.mem_cons.1 ha).resolve_left (Ne.symm heq))

variable {cast : Cast} {b : BusId} {event : Event} {notes : ListenerId → List Record} {set : List ListenerId}

theorem Bus.handed_handsTo (l l' : ListenerId) : (Bus.handsTo (A := A) cast b event notes l').filterMap (Op.handedTo? l)
    = if l' = l then [event] else [] := by
  have hnotes : ((notes l').map (Op.record (A := A))).filterMap (Op.handedTo? l) = [] := by
    rw [List.filterMap_map, List.filterMap_eq_nil_iff]
    exact fun _ _ => rfl
  rw [Bus.handsTo, List.filterMap_cons, hnotes, Op.handedTo?]
  split <;> simp_all

/-- A delivery hands its event to every listener once. -/
theorem Bus.handed_delivers (hset : set.Nodup) (l : ListenerId) :
    (Bus.delivers (A := A) cast b event notes set).filterMap (Op.handedTo? l) = if l ∈ set then [event] else [] := by
  have hall : (Bus.delivers (A := A) cast b event notes set).filterMap (Op.handedTo? l)
      = set.flatMap fun l' => if l' = l then [event] else [] := by
    rw [Bus.delivers, List.filterMap_append, List.filterMap_append, List.filterMap_flatMap]
    simp only [Bus.handed_handsTo]
    exact List.append_nil _
  rw [hall]
  split
  next hl =>
    rw [flatMap_eq_of_nodup hset hl fun l' hl' => if_neg hl', if_pos rfl]
  next hl =>
    refine List.flatMap_eq_nil_iff.2 fun l' hl' => if_neg ?_
    rintro rfl
    exact hl hl'

/-- It is begun once. -/
theorem Bus.begins_delivers :
    (Bus.delivers (A := A) cast b event notes set).countP (Op.begins b) = 1 := by
  have hhands : (set.flatMap (Bus.handsTo (A := A) cast b event notes)).countP (Op.begins b) = 0 := by
    refine List.countP_eq_zero.2 fun op hop => ?_
    obtain ⟨l, -, hl⟩ := List.mem_flatMap.1 hop
    rcases List.mem_cons.1 hl with rfl | hnote
    · exact Bool.false_ne_true
    · obtain ⟨r, -, rfl⟩ := List.mem_map.1 hnote
      exact Bool.false_ne_true
  rw [Bus.delivers, List.countP_append, List.countP_append, hhands]
  simp [Op.begins]

theorem Bus.cancel_not_mem_delivers (token : TokenId) :
    Op.cancel token ∉ Bus.delivers (A := A) cast b event notes set := by
  simp [Bus.delivers, Bus.handsTo]

end Delivery

namespace Console

/-! ### Lines before `quit` -/

/-- A line that says `quit`, with nothing but blanks around it. -/
def SaysQuit (line : String) : Prop :=
  ∃ before after, (∀ c ∈ before ++ after, Text.isBlank c = true) ∧
    line.toList = before ++ quitWord.toList ++ after

theorem trim_eq_quitWord_iff {line : String} : Text.trim line = quitWord ↔ SaysQuit line :=
  Text.trim_eq_iff (by decide) (by rintro c ⟨⟩; decide) (by rintro c ⟨⟩; decide)

/-- A line that is not dispatched: it says `quit`, or it is no text. -/
def Stops (bytes : List UInt8) : Prop := ∀ line, Text.utf8 line = bytes → SaysQuit line

/-- The texts of the lines before the first that says `quit` or is no text, or of all of them. -/
def Precede (lines : List (List UInt8)) (sent : List String) : Prop :=
  ∃ rest, lines = sent.map Text.utf8 ++ rest ∧ (∀ line ∈ sent, ¬ SaysQuit line) ∧ ∀ bytes ∈ rest.head?, Stops bytes

/-- A line says `quit`, and all lines before it are text. -/
def QuitsIn (lines : List (List UInt8)) : Prop :=
  ∃ before line after, lines = before ++ Text.utf8 line :: after ∧ SaysQuit line ∧
    ∀ bytes ∈ before, ∃ line, Text.utf8 line = bytes

section Lines

variable {lines : List (List UInt8)} {sent sent' : List String} {bytes : List UInt8} {line : String}

theorem precede_nil : Precede [] [] := ⟨[], rfl, nofun, nofun⟩

theorem precede_stop (h : Stops bytes) : Precede (bytes :: lines) [] :=
  ⟨bytes :: lines, rfl, nofun, fun _ hhead => Option.some.inj hhead ▸ h⟩

theorem Precede.cons (h : Precede lines sent) (hline : ¬ SaysQuit line) :
    Precede (Text.utf8 line :: lines) (line :: sent) := by
  obtain ⟨rest, rfl, hsent, hrest⟩ := h
  exact ⟨rest, rfl, List.forall_mem_cons.2 ⟨hline, hsent⟩, hrest⟩

/-- A line that is sent is none that stops the others. -/
theorem Precede.not_stops (h : Precede (bytes :: lines) (line :: sent)) : ¬ Stops bytes := by
  obtain ⟨rest, heq, hsent, -⟩ := h
  exact fun hstops => hsent line List.mem_cons_self (hstops line (List.cons.inj heq).1.symm)

theorem Precede.head (h : Precede (bytes :: lines) (line :: sent)) : Text.utf8 line = bytes := by
  obtain ⟨rest, heq, -⟩ := h
  exact (List.cons.inj heq).1.symm

theorem Precede.tail (h : Precede (bytes :: lines) (line :: sent)) : Precede lines sent := by
  obtain ⟨rest, heq, hsent, hrest⟩ := h
  exact ⟨rest, (List.cons.inj heq).2, fun line hline => hsent line (List.mem_cons_of_mem _ hline), hrest⟩

theorem Precede.stops (h : Precede (bytes :: lines) []) : Stops bytes := by
  obtain ⟨rest, rfl, -, hrest⟩ := h
  exact hrest bytes rfl

/-- There is no choice about which lines these are. -/
theorem Precede.unique (h : Precede lines sent) (h' : Precede lines sent') : sent = sent' := by
  induction lines generalizing sent sent' with
  | nil =>
    have hnone : ∀ {sent : List String}, Precede [] sent → sent = [] := fun ⟨_, heq, _⟩ =>
      List.map_eq_nil_iff.1 (List.append_eq_nil_iff.1 heq.symm).1
    rw [hnone h, hnone h']
  | cons bytes rest ih =>
    cases sent with
    | nil =>
      cases sent' with
      | nil => rfl
      | cons line' sent' => exact absurd h.stops h'.not_stops
    | cons line sent =>
      cases sent' with
      | nil => exact absurd h'.stops h.not_stops
      | cons line' sent' =>
        rw [Text.utf8_injective (h.head.trans h'.head.symm), ih h.tail h'.tail]

theorem not_quitsIn_nil : ¬ QuitsIn [] := by
  rintro ⟨before, line, after, heq, -⟩
  exact List.append_ne_nil_of_right_ne_nil _ (List.cons_ne_nil _ _) heq.symm

theorem not_quitsIn_of_no_text (h : ∀ line, Text.utf8 line ≠ bytes) : ¬ QuitsIn (bytes :: lines) := by
  rintro ⟨before, line, after, heq, -, hbefore⟩
  cases before with
  | nil => exact h line (List.cons.inj heq).1.symm
  | cons first before =>
    obtain ⟨line', hline'⟩ := hbefore first List.mem_cons_self
    exact h line' (hline'.trans (List.cons.inj heq).1.symm)

theorem quitsIn_of_saysQuit (h : SaysQuit line) : QuitsIn (Text.utf8 line :: lines) :=
  ⟨[], line, lines, rfl, h, nofun⟩

theorem quitsIn_cons_iff (h : ¬ SaysQuit line) : QuitsIn (Text.utf8 line :: lines) ↔ QuitsIn lines := by
  constructor
  · rintro ⟨before, line', after, heq, hquit, hbefore⟩
    cases before with
    | nil =>
      obtain ⟨hsame, -⟩ := List.cons.inj heq
      exact absurd (Text.utf8_injective hsame ▸ hquit) h
    | cons first before =>
      exact ⟨before, line', after, (List.cons.inj heq).2, hquit, fun bytes hbytes =>
        hbefore bytes (List.mem_cons_of_mem _ hbytes)⟩
  · rintro ⟨before, line', after, rfl, hquit, hbefore⟩
    exact ⟨Text.utf8 line :: before, line', after, rfl, hquit, List.forall_mem_cons.2 ⟨⟨line, rfl⟩, hbefore⟩⟩

end Lines

/-! ### What the worker asks for -/

/-- The record with which the gateway relays a line. -/
def relay (line : String) : Record :=
  ⟨.info, origin, "gateway relaying console line", [.shown "line" line]⟩

/-- What the gateway relays with an operation. -/
def relayed? : Op app → Option Record
  | .record r => if r.message = "gateway relaying console line" then some r else none
  | _ => none

/-- The records that a listener writes of a line. -/
def noted (line : String) (l : ListenerId) : List Record :=
  match Part.ofId? l with
  | some .gateway => [relay line]
  | some .log => [EventLog.recordOf (consoleLine line)]
  | _ => []

/-- What the worker asks for while it follows the input: it waits for one line after another, and for the end, and
dispatches the line to everybody who is registered, the gateway among them, or says why it is no text. -/
inductive Follows (c : Kit) : List (List UInt8) → List (Op app) → Prop where
  | ends (millis : Nat) : Follows c [] [.awaitCancelFor c.token millis]
  | closes {bytes : List UInt8} {rest : List (List UInt8)} (millis : Nat) (flaw : Text.Utf8.Flaw) :
      (∀ line, Text.utf8 line ≠ bytes) →
      Follows c (bytes :: rest)
        [.awaitCancelFor c.token millis, .record ⟨.warn, origin, "stdin closed: " ++ flaw.message, []⟩]
  | quits {line : String} {rest : List (List UInt8)} (millis : Nat) : SaysQuit line →
      Follows c (Text.utf8 line :: rest) [.awaitCancelFor c.token millis, .cancel c.request]
  | dispatches {line : String} {rest : List (List UInt8)} {set : List ListenerId} {ops : List (Op app)}
      (millis : Nat) : ¬ SaysQuit line → set.Nodup → Part.gateway.id ∈ set → Follows c rest ops →
      Follows c (Text.utf8 line :: rest)
        (.awaitCancelFor c.token millis :: Bus.delivers cast c.bus (consoleLine line) (noted line) set ++ ops)

/-- What is asked for in order that some lines of the input are forwarded. -/
structure Forwards (c : Kit) (lines : List (List UInt8)) (sent : List String) (ops : List (Op app)) : Prop where
  /-- Each of these lines is dispatched once. -/
  begins : ops.countP (Op.begins c.bus) = sent.length
  /-- They are handed to the gateway in their order, -/
  handed : ops.filterMap (Op.handedTo? Part.gateway.id) = sent.map consoleLine
  /-- and nobody is handed anything else. -/
  others : ∀ l, (ops.filterMap (Op.handedTo? l)).Sublist (sent.map consoleLine)
  /-- The gateway relays them. -/
  relays : ops.filterMap relayed? = sent.map relay
  /-- A shutdown is asked for if the lines come to one that says `quit`, -/
  requests : .cancel c.request ∈ ops ↔ QuitsIn lines
  /-- and that is the end. -/
  last : ∀ token before after, ops = before ++ .cancel token :: after → token = c.request ∧ after = []

section Operations

variable {c : Kit} {lines : List (List UInt8)} {ops : List (Op app)} {line : String} {set : List ListenerId}

theorem Part.eq_id_of_ofId? {l : ListenerId} {part : Part} (h : Part.ofId? l = some part) : l = part.id := by
  match l with
  | 0 | 1 | 2 | 3 | 4 => cases h; rfl
  | l + 5 => cases h

/-- The gateway is the only one to relay a line. -/
theorem relayed_handsTo (event : Event) (l : ListenerId) :
    (Bus.handsTo (A := app) cast c.bus event (noted line) l).filterMap relayed?
      = if l = Part.gateway.id then [relay line] else [] := by
  rw [Bus.handsTo, List.filterMap_cons_none rfl, List.filterMap_map]
  cases hpart : Part.ofId? l with
  | none =>
    rw [noted, hpart, if_neg]
    · rfl
    · rintro rfl
      cases hpart
  | some part =>
    obtain rfl := Part.eq_id_of_ofId? hpart
    cases part <;> rfl

theorem relayed_delivers (hset : set.Nodup) (hgateway : Part.gateway.id ∈ set) (event : Event) :
    (Bus.delivers (A := app) cast c.bus event (noted line) set).filterMap relayed? = [relay line] := by
  have hall : (Bus.delivers (A := app) cast c.bus event (noted line) set).filterMap relayed?
      = set.flatMap fun l => if l = Part.gateway.id then [relay line] else [] := by
    rw [Bus.delivers, List.filterMap_append, List.filterMap_append, List.filterMap_flatMap]
    simp only [relayed_handsTo]
    exact List.append_nil _
  rw [hall, flatMap_eq_of_nodup hset hgateway fun l hl => if_neg hl, if_pos rfl]

/-- Whatever the input, there is something to be asked for. -/
theorem exists_follows (c : Kit) (lines : List (List UInt8)) : ∃ ops, Follows c lines ops := by
  induction lines with
  | nil => exact ⟨_, .ends 0⟩
  | cons bytes rest ih =>
    obtain ⟨ops, hops⟩ := ih
    by_cases htext : ∃ line, Text.utf8 line = bytes
    · obtain ⟨line, rfl⟩ := htext
      by_cases hquit : SaysQuit line
      · exact ⟨_, .quits 0 hquit⟩
      · exact ⟨_, .dispatches 0 hquit (List.nodup_singleton Part.gateway.id) List.mem_cons_self hops⟩
    · exact ⟨_, .closes 0 default fun line hline => htext ⟨line, hline⟩⟩

/-- Somewhere among operations there is one, and it is not among the first of them. -/
theorem eq_append_of_not_mem {first : List (Op app)} {op : Op app} {before after : List (Op app)} (hop : op ∉ first)
    (h : first ++ ops = before ++ op :: after) : ∃ before', ops = before' ++ op :: after := by
  rcases List.append_eq_append_iff.1 h with ⟨before', -, hops⟩ | ⟨between, hfirst, hafter⟩
  · exact ⟨before', hops⟩
  · cases between with
    | nil => exact ⟨[], hafter.symm⟩
    | cons op' between =>
      obtain ⟨rfl, -⟩ := List.cons.inj hafter
      exact absurd (hfirst ▸ List.mem_append_right _ List.mem_cons_self) hop

/-- **The worker forwards the lines** before the first that says `quit` or is no text. -/
theorem Follows.forwards (h : Follows c lines ops) : ∃ sent, Precede lines sent ∧ Forwards c lines sent ops := by
  induction h with
  | ends millis =>
    have hnever : ∀ token, Op.cancel token ∉ [Op.awaitCancelFor (A := app) c.token millis] := fun token hmem =>
      nomatch List.mem_singleton.1 hmem
    refine ⟨[], precede_nil, rfl, rfl, fun _ => .slnil, rfl, iff_of_false (hnever _) not_quitsIn_nil,
      fun token before after heq => ?_⟩
    exact absurd (heq ▸ List.mem_append_right _ List.mem_cons_self) (hnever token)
  | closes millis flaw hflaw =>
    have hmessage : "stdin closed: " ++ flaw.message ≠ "gateway relaying console line" := fun heq => by
      have hfirst := congrArg (fun s : String => s.toList.head?) heq
      rw [String.toList_append] at hfirst
      exact absurd hfirst (by simp)
    have hnever : ∀ token, Op.cancel token ∉ [Op.awaitCancelFor (A := app) c.token millis,
        .record ⟨.warn, origin, "stdin closed: " ++ flaw.message, []⟩] := by
      simp
    refine ⟨[], precede_stop fun line hline => absurd hline (hflaw line), rfl, rfl, fun _ => .slnil, ?_,
      iff_of_false (hnever _) (not_quitsIn_of_no_text hflaw), fun token before after heq => ?_⟩
    · rw [List.filterMap_cons_none rfl]
      refine List.filterMap_eq_nil_iff.2 fun op hop => ?_
      rw [List.mem_singleton.1 hop, relayed?, if_neg hmessage]
    · exact absurd (heq ▸ List.mem_append_right _ List.mem_cons_self) (hnever token)
  | quits millis hquit =>
    refine ⟨[], precede_stop fun line hline => Text.utf8_injective hline ▸ hquit, rfl, rfl, fun _ => .slnil, rfl,
      iff_of_true (by simp) (quitsIn_of_saysQuit hquit), fun token before after heq => ?_⟩
    cases before with
    | nil => cases heq
    | cons _ before =>
      cases before with
      | nil =>
        cases heq
        exact ⟨rfl, rfl⟩
      | cons _ before =>
        have hnone := (List.cons.inj (List.cons.inj heq).2).2
        exact absurd hnone.symm (List.append_ne_nil_of_right_ne_nil before (List.cons_ne_nil _ _))
  | @dispatches line rest set ops millis hquit hset hgateway _ ih =>
    obtain ⟨sent, hprecede, hforwards⟩ := ih
    have hnever : ∀ token, Op.cancel token ∉
        .awaitCancelFor c.token millis :: Bus.delivers (A := app) cast c.bus (consoleLine line) (noted line) set :=
      fun token hmem => Bus.cancel_not_mem_delivers token ((List.mem_cons.1 hmem).resolve_left nofun)
    refine ⟨line :: sent, hprecede.cons hquit, ?_, ?_, fun l => ?_, ?_, ?_, fun token before after heq => ?_⟩
    · rw [List.countP_append, List.countP_cons, Bus.begins_delivers, hforwards.begins, List.length_cons]
      exact Nat.add_comm _ _
    · rw [List.filterMap_append, List.filterMap_cons_none rfl, Bus.handed_delivers hset, if_pos hgateway,
        hforwards.handed]
      rfl
    · rw [List.filterMap_append, List.filterMap_cons_none rfl, Bus.handed_delivers hset]
      split
      · exact (hforwards.others l).cons_cons _
      · exact (hforwards.others l).cons _
    · rw [List.filterMap_append, List.filterMap_cons_none rfl, relayed_delivers hset hgateway, hforwards.relays]
      rfl
    · rw [List.mem_append, or_iff_right (hnever _), hforwards.requests, quitsIn_cons_iff hquit]
    · obtain ⟨before', hlast⟩ := eq_append_of_not_mem (hnever token) heq
      exact hforwards.last token before' after hlast

end Operations

/-! ### The worker -/

/-- What is left of the worker's program when so many lines have been read, and some have not. -/
def following (around : Surroundings) (c : Kit) (n : Nat) (lines : List Line) : Program app Outcome :=
  (followInput around c n lines).bind fun _ => .done (.ok ())

/-- What is left of it when a line is about to be dispatched. -/
def dispatching (around : Surroundings) (c : Kit) (n : Nat) (line : String) (rest : List Line) :
    Program app Outcome :=
  Bus.dispatch cast c.bus consoleLineKey ⟨[⟨.string, line⟩]⟩ none >>= fun d =>
    (match d with
      | .ok _ => pure ()
      | .error e => say .warn ("console line dropped: " ++ e.message) []).bind fun _ => following around c (n + 1) rest

section Programs

variable (around : Surroundings) (c : Kit) (n : Nat)

theorem following_nil (hcloses : around.keepsOpen = false) : following around c n []
    = .perform (.awaitCancelFor c.token (around.pauses n)) fun _ => .done (.ok ()) := by
  rw [following, followInput, hcloses]
  rfl

theorem following_error (flaw : Text.Utf8.Flaw) (rest : List Line) : ∃ next,
    following around c n (.error flaw :: rest) = .perform (.awaitCancelFor c.token (around.pauses n)) next ∧
      next false = .perform (.record ⟨.warn, origin, "stdin closed: " ++ flaw.message, []⟩) fun _ =>
        .done (.ok ()) :=
  ⟨_, rfl, rfl⟩

theorem following_ok (line : String) (rest : List Line) : ∃ next,
    following around c n (.ok line :: rest) = .perform (.awaitCancelFor c.token (around.pauses n)) next ∧
      next false = if Text.trim line = quitWord then .perform (.cancel c.request) fun _ => .done (.ok ())
        else dispatching around c n line rest := by
  refine ⟨_, rfl, ?_⟩
  show ((if Text.trim line = quitWord then _ else _ : Program app Unit).bind _) = _
  split
  · rfl
  · refine (Program.bind_assoc _ _ _).trans (congrArg (Program.bind _) (funext fun d => ?_))
    cases d <;> rfl

theorem dispatching_publishes (line : String) (rest : List Line) :
    Bus.Publishes cast c.bus (consoleLine line) none (dispatching around c n line rest)
      fun _ => following around c (n + 1) rest :=
  .dispatch _ rfl

end Programs

/-- Everybody who is handed a line writes some records, and no more. -/
theorem onEvent_writes (around : Surroundings) (line : String) (l : ListenerId) :
    ((world around).body (.onEvent l (consoleLine line))).Writes (noted line l) (.ok ()) := by
  rw [noted]
  dsimp only [world]
  cases Part.ofId? l with
  | none => exact .done _
  | some part =>
    cases part with
    | gateway => exact .record (.done _)
    | log => exact .record (.done _)
    | _ => exact .done _

namespace Worker

variable {around : Surroundings} {x : Execution (world around)} {t : TaskId} {live : Prop} {c : Kit} {i j n : Nat}
  {lines : List (List UInt8)} {read : List Line}

/-- Nobody else asks for a shutdown: as long as the worker has not, its token is not cancelled. -/
def IsQuiet (x : Execution (world around)) (t : TaskId) (c : Kit) (i : Nat) : Prop :=
  ∀ n, i ≤ n → .cancel c.request ∉ x.asked t i n → (x.state n).isCancelled c.token = false

/-- As long as the worker has not asked for a shutdown, the gateway is registered when the worker takes a step. -/
def HasGateway (x : Execution (world around)) (t : TaskId) (c : Kit) (i : Nat) : Prop :=
  ∀ n, i ≤ n → x.turn n = some t → .cancel c.request ∉ x.asked t i n → Part.gateway.id ∈ x.listeners c.bus n

theorem not_mem_asked_of_later (hin : i ≤ n) (hnj : n ≤ j) (hasked : .cancel c.request ∉ x.asked t i n)
    (hlater : .cancel c.request ∉ x.asked t n j) : .cancel c.request ∉ x.asked t i j := by
  rw [Execution.asked_trans hin hnj]
  exact fun hmem => (List.mem_append.1 hmem).elim hasked hlater

theorem IsQuiet.later (h : IsQuiet x t c i) (hin : i ≤ n) (hasked : .cancel c.request ∉ x.asked t i n) :
    IsQuiet x t c n :=
  fun m hm hlater => h m (Nat.le_trans hin hm) (not_mem_asked_of_later hin hm hasked hlater)

theorem HasGateway.later (h : HasGateway x t c i) (hin : i ≤ n) (hasked : .cancel c.request ∉ x.asked t i n) :
    HasGateway x t c n :=
  fun m hm hturn hlater => h m (Nat.le_trans hin hm) hturn (not_mem_asked_of_later hin hm hasked hlater)

/-- The worker waits for the next line until it comes. -/
theorem awaits_line {next : Bool → Program app Outcome} {millis : Nat} (hlive : live → x.Attends t ∧ x.Lapses t)
    (hquiet : IsQuiet x t c i)
    (hk : (x.state i).core t = some ⟨.running (.perform (.awaitCancelFor c.token millis) next), [], []⟩) :
    x.Recites t live i (Execution.Exactly [.awaitCancelFor c.token millis] ⟨.running (next false), [], []⟩) := by
  refine Execution.Recites.awaitCancelFor hlive (fun n hn hasked => hquiet n hn fun hmem => ?_) hk
  cases List.mem_singleton.1 (hasked.subset hmem)

/-- At the end of the worker's program. -/
def finished : Core app := ⟨.running (.done (.ok ())), [], []⟩

/-- **What the worker asks for follows from what has been typed**, one line after another. -/
theorem recites (hcloses : around.keepsOpen = false) (hlive : live → x.Attends t ∧ x.Lapses t ∧ x.Admits t c.bus)
    (hmeans : List.Forall₂ Text.Lines.Means lines read) (hgateway : HasGateway x t c i) (hquiet : IsQuiet x t c i)
    (hk : (x.state i).core t = some ⟨.running (following around c n read), [], []⟩) :
    x.Recites t live i fun ops k => Follows c lines ops ∧ k = finished := by
  have hattends : live → x.Attends t := fun h => (hlive h).1
  have hlapses : live → x.Attends t ∧ x.Lapses t := fun h => ⟨(hlive h).1, (hlive h).2.1⟩
  induction hmeans generalizing i n with
  | nil =>
    rw [following_nil around c n hcloses] at hk
    refine (awaits_line hlapses hquiet hk).mono fun ops k hops => ?_
    obtain ⟨rfl, rfl⟩ := hops
    exact ⟨.ends _, rfl⟩
  | @cons bytes line lines read hline hmeans ih =>
    cases line with
    | error flaw =>
      obtain ⟨next, hprogram, hnext⟩ := following_error around c n flaw read
      rw [hprogram] at hk
      have hwaits := awaits_line hlapses hquiet hk
      rw [hnext] at hwaits
      refine (hwaits.trans fun m hm hk' => Execution.Recites.record hattends hk').mono fun ops k hops => ?_
      obtain ⟨rfl, rfl⟩ := hops
      exact ⟨.closes _ flaw hline, rfl⟩
    | ok line =>
      obtain rfl : Text.utf8 line = bytes := hline
      obtain ⟨next, hprogram, hnext⟩ := following_ok around c n line read
      rw [hprogram] at hk
      have hwaits := awaits_line hlapses hquiet hk
      by_cases hquit : Text.trim line = quitWord
      · rw [hnext, if_pos hquit] at hwaits
        refine (hwaits.trans fun m hm hk' => Execution.Recites.cancel hattends hk').mono fun ops k hops => ?_
        obtain ⟨rfl, rfl⟩ := hops
        exact ⟨.quits _ (trim_eq_quitWord_iff.1 hquit), rfl⟩
      · have hgoes : ¬ SaysQuit line := fun hsaid => hquit (trim_eq_quitWord_iff.2 hsaid)
        obtain ⟨more, hmore⟩ := exists_follows c lines
        rw [hnext, if_neg hquit] at hwaits
        refine hwaits.followedBy ?_ fun m hm hk' hasked => ?_
        · exact ⟨_, _, .dispatches _ hgoes (List.nodup_singleton Part.gateway.id) List.mem_cons_self hmore, rfl⟩
        have hnone : .cancel c.request ∉ x.asked t i m := by simp [hasked]
        -- Everybody who is registered is handed the line, and the worker goes on with the next one.
        have hdispatches := Execution.Recites.publish (onEvent_writes around line)
          (dispatching_publishes around c n line read) (fun h => ⟨(hlive h).1, (hlive h).2.2⟩)
          (P := fun set => set.Nodup ∧ Part.gateway.id ∈ set)
          ⟨[Part.gateway.id], List.nodup_singleton _, List.mem_cons_self⟩
          (fun n hn hturn hasked' => ⟨x.nodup c.bus n, hgateway.later hm hnone n hn hturn (by simp [hasked'])⟩) hk'
        refine hdispatches.andThen (fun ops k hops => ?_) fun n ops k hn hk'' hasked' hops => ?_
        · obtain ⟨set, e, ⟨hset, hin⟩, rfl, -⟩ := hops
          exact ⟨more, _, .dispatches _ hgoes hset hin hmore, rfl⟩
        · obtain ⟨set, e, ⟨hset, hin⟩, rfl, rfl⟩ := hops
          have hnone' : .cancel c.request ∉ x.asked t i n := not_mem_asked_of_later hm hn hnone fun hmem =>
            Bus.cancel_not_mem_delivers _ (hasked' ▸ hmem)
          have hin' := Nat.le_trans hm hn
          have hrest := ih (hgateway.later hin' hnone') (hquiet.later hin' hnone') hk''
          refine hrest.mono fun ops' k' hops' => ⟨?_, hops'.2⟩
          exact .dispatches _ hgoes hset hin hops'.1

theorem finished_atEnd : finished.AtEnd 0 := ⟨_, _, rfl, .done _, rfl⟩

end Worker

open Worker in
/-- **The console forwards exactly the lines before `quit`**, or before the first that is no text, or all of them.
At any time the worker has asked for the beginning of what forwards these lines, at its end for all of that; and if it
is served, it comes to its end. -/
theorem console_forwards_lines_before_quit (around : Surroundings) (stream : List UInt8)
    (hlines : around.lines = Text.Lines.read (stream.map UInt8.toNat)) (hcloses : around.keepsOpen = false) (c : Kit)
    (x : Execution (world around)) (t : TaskId) (i : Nat)
    (hk : (x.state i).core t = some ⟨.running (doJob around (.input c)), [], []⟩)
    (hgateway : HasGateway x t c i) (hquiet : IsQuiet x t c i) :
    (∃! sent, Precede (Text.Lines.ofBytes stream) sent) ∧ ∀ sent, Precede (Text.Lines.ofBytes stream) sent →
      (∀ j, i ≤ j → x.Uncut t 0 i j → ∃ ops, Forwards c (Text.Lines.ofBytes stream) sent ops ∧
        x.asked t i j <+: ops ∧
        ∀ k, (x.state j).core t = some k → k.AtEnd 0 → k = finished ∧ x.asked t i j = ops) ∧
      (x.Attends t → x.Lapses t → x.Admits t c.bus →
        (∀ n task, i ≤ n → (x.state n).tasks[t]? = some task → task.aborted = false) →
        ∃ n, i ≤ n ∧ x.Uncut t 0 i n ∧ (x.state n).core t = some finished ∧
          Forwards c (Text.Lines.ofBytes stream) sent (x.asked t i n)) := by
  have hprogram : doJob around (.input c) = following around c 0 around.lines := rfl
  rw [hprogram, hlines] at hk
  have hmeans := Text.Lines.read_means stream
  have hend : ∀ (ops : List (Op app)) k, Follows c (Text.Lines.ofBytes stream) ops ∧ k = finished → k.AtEnd 0 := by
    rintro ops k ⟨-, rfl⟩
    exact finished_atEnd
  -- Whatever the worker asks for, it forwards the lines that precede.
  have hforwards : ∀ {sent ops}, Precede (Text.Lines.ofBytes stream) sent →
      Follows c (Text.Lines.ofBytes stream) ops → Forwards c (Text.Lines.ofBytes stream) sent ops := by
    intro sent ops hsent hfollows
    obtain ⟨sent', hsent', hall⟩ := hfollows.forwards
    exact hsent.unique hsent' ▸ hall
  obtain ⟨ops, hops⟩ := exists_follows c (Text.Lines.ofBytes stream)
  obtain ⟨sent, hsent, -⟩ := hops.forwards
  refine ⟨⟨sent, hsent, fun sent' hsent' => hsent'.unique hsent⟩, fun sent hsent => ⟨fun j hij huncut => ?_, ?_⟩⟩
  · have hrecites : x.Recites t False i _ := recites hcloses nofun hmeans hgateway hquiet hk
    by_cases hover : ∃ k, (x.state j).core t = some k ∧ k.AtEnd 0
    · obtain ⟨k, hk', hover⟩ := hover
      obtain ⟨hfollows, rfl⟩ := hrecites.asked_atEnd hend hij huncut hk' hover
      refine ⟨_, hforwards hsent hfollows, List.prefix_refl _, fun k hk'' _ => ⟨?_, rfl⟩⟩
      exact Option.some.inj (hk''.symm.trans hk')
    · obtain ⟨_, k, ⟨hfollows, -⟩, hprefix⟩ := hrecites.asked_prefix hend hij huncut
      exact ⟨_, hforwards hsent hfollows, hprefix, fun k hk' hend' => absurd ⟨k, hk', hend'⟩ hover⟩
  · intro hattends hlapses hadmits hfree
    have hrecites : x.Recites t True i _ :=
      recites hcloses (fun _ => ⟨hattends, hlapses, hadmits⟩) hmeans hgateway hquiet hk
    obtain ⟨n, hin, huncut, k, hk', hfollows, rfl⟩ := hrecites.arrives trivial hk nofun hfree
    exact ⟨n, hin, huncut, hk', hforwards hsent hfollows⟩

/-! ### An input -/

/-- A line to be relayed, another one that says `quit`, and a byte that is no text. -/
def sampleInput : List UInt8 := [104, 105, 13, 10, 9, 113, 117, 105, 116, 32, 10, 255]

/-- What is read of it. -/
def typed : Surroundings := { lines := [.ok "hi", .ok "\tquit ", .error ⟨0, some 1⟩] }

theorem typed_lines : typed.lines = Text.Lines.read (sampleInput.map UInt8.toNat) := by decide +kernel

theorem sampleInput_lines :
    Text.Lines.ofBytes sampleInput = [Text.utf8 "hi", Text.utf8 "\tquit ", [255]] := by decide +kernel

theorem saysQuit_sample : SaysQuit "\tquit " := trim_eq_quitWord_iff.1 (by decide)

theorem precede_sampleInput : Precede (Text.Lines.ofBytes sampleInput) ["hi"] := by
  have hgoes : ¬ SaysQuit "hi" := fun hquit => absurd (trim_eq_quitWord_iff.2 hquit) (by decide)
  rw [sampleInput_lines]
  exact (precede_stop fun line hline => Text.utf8_injective hline ▸ saysQuit_sample).cons hgoes

theorem quitsIn_sampleInput : QuitsIn (Text.Lines.ofBytes sampleInput) :=
  ⟨[Text.utf8 "hi"], _, [[255]], sampleInput_lines, saysQuit_sample,
    fun _ hbytes => ⟨"hi", (List.mem_singleton.1 hbytes).symm⟩⟩

/-- What the worker is given. -/
def sampleKit : Kit := ⟨bus, "console", ⟨"console"⟩, .random 1, 1, 0, 0⟩

/-- The gateway and the listener that logs events are registered, and the worker is hired. -/
def opening : Program app Outcome := do
  let _ ← .ask (.newToken none)
  let _ ← .ask (.newToken none)
  let _ ← .ask .newCrew
  let _ ← Bus.register cast bus Part.gateway.id
  let _ ← Bus.register cast bus Part.log.id
  .ask (.hire 0 "console/stdin" (Job.input sampleKit))
  Program.resting

open Move in
/-- The worker comes to its end. -/
def typing : Execution (world typed) :=
  .directed (world typed) 1 opening {} (List.replicate 13 (step 0) ++ [step 1, park 1, tick] ++
    List.replicate 15 (step 1))

/-- In the end the clock stands still. -/
theorem typing_tick : (typing.state 32).tick = none := Option.isNone_iff_eq_none.1 (by decide +kernel)

/-- The gateway relays the first line, and the second one asks for a shutdown. -/
theorem console_forwards_sampleInput : ∃ n, (typing.state n).core 1 = some Worker.finished ∧
    (typing.asked 1 14 n).filterMap relayed? = [relay "hi"] ∧ .cancel sampleKit.request ∈ typing.asked 1 14 n := by
  have hgateway : Worker.HasGateway typing 1 sampleKit 14 := by
    have hmoves : ∀ n, n < 32 → 14 ≤ n → Part.gateway.id ∈ typing.listeners sampleKit.bus n := by decide +kernel
    intro n hn hturn _
    rcases Nat.lt_or_ge n 32 with hlt | hge
    · exact hmoves n hlt hn
    · cases hturn.symm.trans (Execution.directed_turn hge)
  have hquiet : Worker.IsQuiet typing 1 sampleKit 14 := by
    have hmoves : ∀ n, n ≤ 32 → 14 ≤ n → (typing.state n).isCancelled sampleKit.token = false := by decide +kernel
    exact fun n hn _ => Execution.directed_forever (P := fun s => s.isCancelled sampleKit.token = false) typing_tick
      hmoves (by decide) hn
  have hfree : ∀ n task, 14 ≤ n → (typing.state n).tasks[1]? = some task → task.aborted = false := by
    have hmoves : ∀ n, n ≤ 32 → 14 ≤ n → ((typing.state n).tasks[1]?).all (fun task => !task.aborted) = true := by
      decide +kernel
    intro n task hn htask
    have hall := Execution.directed_forever (P := fun s => (s.tasks[1]?).all fun task : Task app => !task.aborted)
      typing_tick hmoves (by decide) hn
    have hsome : (some task).all (fun task => !task.aborted) = true := htask ▸ hall
    exact (Bool.not_eq_true' task.aborted).mp hsome
  have hended : (typing.state 32).core 1 = some ⟨.ended, [], []⟩ := rfl
  have hturn : typing.turn 31 = some 1 := by decide +kernel
  obtain ⟨-, hall⟩ :=
    console_forwards_lines_before_quit typed sampleInput typed_lines rfl sampleKit typing 1 14 rfl hgateway hquiet
  obtain ⟨n, -, -, hcore, hforwards⟩ := (hall _ precede_sampleInput).2
    (Execution.directed_attends typing_tick hturn (Option.isNone_iff_eq_none.1 (by decide +kernel)) (by decide +kernel))
    (Execution.directed_lapses typing_tick hturn (by decide +kernel))
    (Execution.directed_admits typing_tick hturn _ fun _ _ _ hwaits => nomatch hended.symm.trans hwaits) hfree
  exact ⟨n, hcore, hforwards.relays, hforwards.requests.2 quitsIn_sampleInput⟩

end Console

end Orchestra
