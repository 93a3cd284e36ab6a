import StepScript.Proofs.Host.History
import StepScript.Proofs.Host.Scoping

/-!
# Proofs/Host/Subroutine — subroutines are called and left, never fallen into

A subroutine stands among the other commands of a script. The lines of a frame, taken in order, say
which subroutines are open: every `endsub` goes back behind the last `gosub` that has not been left.
A line that is no jump never leads into the body of a subroutine: the commands before a `beginsub`
stop at it, and it leads behind its `endsub`.

* `Machine.Traced.returns_last_opened_first` — the open subroutines, for every frame of every run.
* `Machine.Body` — where a subroutine begins and where it ends.
* `Machine.Traced.body_entered_by_jump` — how a frame comes into a body.
-/

namespace StepScript

/-! ## A script with a subroutine -/

namespace Machine

/-- The one script of a host: it calls a subroutine that stands right behind the call. -/
def chat (_ : String) : Except Failure Located :=
  .ok ⟨"chat.scr", .line, "gosub greet\nbeginsub greet\nsay hello\nendsub\nsay bye\n"⟩

/-- The host answers every call at once. -/
def prompt : Host (List Call) := Host.fixed {} chat fun _ _ _ => .ok (.ready "")

/-- The script was started. -/
def ringing : World (List Call) := ((prompt.perform (.start ⟨7⟩ "chat")).run ⟨∅, []⟩).state

/-- The subroutine was called. -/
def talking : World (List Call) := ((prompt.perform (.stepInvocation ⟨1⟩)).run ringing).state

/-- The subroutine has said hello, and is about to be left. -/
def greeted : World (List Call) := ((prompt.perform (.stepInvocation ⟨1⟩)).run talking).state

/-- The lines up to there. -/
def pastGreeted : Past :=
  ((Past.after (fun _ => []) {} ∅ (.start ⟨7⟩ "chat")).after {} ringing.machine
    (.stepInvocation ⟨1⟩)).after {} talking.machine (.stepInvocation ⟨1⟩)

theorem quiet_prompt : prompt.Quiet := by
  refine Host.quiet_fixed (fun name located hlocated => ?_) _
  cases hlocated
  decide +kernel

/-- The world at the end of a subroutine has come about by the lines it has executed. -/
theorem traced_greeted : Traced greeted.machine pastGreeted := by
  have hstart : ringing.machine.Roomy := roomy_of_free 9 (by decide) (by decide +kernel)
  have hcall : talking.machine.Roomy := roomy_of_free 9 (by decide) (by decide +kernel)
  have hsay : greeted.machine.Roomy := roomy_of_free 9 (by decide) (by decide +kernel)
  have htraced : Traced ringing.machine (Past.after (fun _ => []) {} ∅ (.start ⟨7⟩ "chat")) := by
    unfold ringing at hstart ⊢
    exact .perform quiet_prompt (w := ⟨∅, []⟩) .new hstart
  unfold greeted at hsay ⊢
  refine .perform quiet_prompt ?_ hsay
  unfold talking at hcall ⊢
  exact .perform quiet_prompt htraced hcall

end Machine

/-! ## Going back -/

theorem reopened_of_endsub {e : Executed} (h : e.keyword? = some .endsub) (returns : List Nat) :
    e.reopened returns = returns.tail := by
  rw [Executed.keyword?] at h
  rw [Executed.reopened, Line.reopened, h]

namespace Machine

variable {m : Machine} {f : FrameHandle} {frame : Frame} {past : Past}

/-- **Subroutines are left in the order opposite to that in which they were called.** The return
addresses of a frame are what its lines left open, whatever happened to the machine between them,
and an `endsub` goes on behind the last one; without one it is passed by. -/
theorem Traced.returns_last_opened_first (h : Traced m past) (hf : m.frames.get? f = some frame) :
    frame.returns = openSubs (past f) ∧
      ∀ {η : Type} (host : Host η) (w : World η) (op : Operation) (e : Executed), host.Quiet →
        w.machine = m → m.executed? host.toSetting op = some e → e.line.frame = f →
        e.keyword? = some .endsub → ((host.perform op).run w).state.machine.Roomy →
        ∃ frame', ((host.perform op).run w).state.machine.frames.get? f = some frame' ∧
          (∀ index rest, openSubs (past f) = index :: rest →
            frame'.cursor = index + 1 ∧ frame'.returns = rest) ∧
          (openSubs (past f) = [] → frame'.cursor = e.line.index + 1 ∧ frame'.returns = []) := by
  have hreturns := (h.recorded hf).returns
  refine ⟨hreturns, fun host w op e hquiet hw he hown hendsub hroom => ?_⟩
  subst hw hown
  have hsound := h.reachable.sound
  obtain ⟨-, hmachine, -, -⟩ := Host.perform_of_executed hsound he
  have hready : e.machine.frames.get? e.line.frame = some _ :=
    hmachine ▸ get?_frames_readied (hsound.frame _ _ hf) hf
  have hlanding : e.landing = frame.returns.head?.getD e.line.index + 1 :=
    (landing_of_endsub hendsub hready :)
  obtain ⟨frame', hf', -, hcursor, hleft⟩ := hquiet.standsAt_perform hsound he hf hroom
  rw [hlanding, hreturns] at hcursor
  rw [reopened_of_endsub hendsub, hreturns] at hleft
  refine ⟨frame', hf', fun index rest hopen => ?_, fun hnone => ?_⟩
  · rw [hcursor, hleft, hopen]
    exact ⟨rfl, rfl⟩
  · rw [hcursor, hleft, hnone]
    exact ⟨rfl, rfl⟩

/-- The subroutine is left, and the script goes on behind the call. -/
theorem greeted_returns : Traced greeted.machine pastGreeted ∧ openSubs (pastGreeted ⟨1⟩) = [0] ∧
    ∃ frame, greeted.machine.frames.get? ⟨1⟩ = some frame ∧
    frame.returns = openSubs (pastGreeted ⟨1⟩) ∧
      ∃ frame', ((prompt.perform (.stepInvocation ⟨1⟩)).run greeted).state.machine.frames.get? ⟨1⟩ =
        some frame' ∧
        frame'.cursor = 1 ∧ frame'.returns = [] := by
  obtain ⟨hlive, hopen, hline⟩ : (greeted.machine.frames.get? ⟨1⟩).isSome = true ∧
      openSubs (pastGreeted ⟨1⟩) = [0] ∧
      ((greeted.machine.executed? {} (.stepInvocation ⟨1⟩)).map
        fun e => (e.line.frame, e.keyword?)) = some (⟨1⟩, some .endsub) := by
    decide +kernel
  obtain ⟨frame, hf⟩ := Option.isSome_iff_exists.1 hlive
  have hroom : ((prompt.perform (.stepInvocation ⟨1⟩)).run greeted).state.machine.Roomy :=
    roomy_of_free 9 (by decide) (by decide +kernel)
  obtain ⟨e, he, heq⟩ := Option.map_eq_some_iff.1 hline
  obtain ⟨hown, hkeyword⟩ := Prod.mk.inj heq
  obtain ⟨hreturns, hback⟩ := traced_greeted.returns_last_opened_first hf
  obtain ⟨frame', hf', hcons, -⟩ :=
    hback prompt greeted (.stepInvocation ⟨1⟩) e quiet_prompt rfl he hown hkeyword hroom
  exact ⟨traced_greeted, hopen, frame, hf, hreturns, frame', hf', hcons 0 [] hopen⟩

end Machine

/-! ## Bodies -/

/-- The keyword begins with a letter, so a command with it is not a label. -/
theorem head_of_beginsub {token : String} (h : Text.sameKeyword token beginsub = true) :
    ∃ c, token.toList.head? = some c ∧ c.toLower = 'b' := by
  have hhead := (Text.head_of_sameKeyword h).trans (show _ = some 'b' by decide +kernel)
  exact Option.map_eq_some_iff.1 hhead

namespace Command

variable {command : Command}

theorem tokens_of_startsWith {keyword : String} (h : command.startsWith keyword = true) :
    ∃ first rest, command.tokens = first :: rest ∧ Text.sameKeyword first keyword = true := by
  unfold startsWith at h
  split at h
  · cases h
  · next first rest htokens => exact ⟨first, rest, htokens, h⟩

/-- A `beginsub` is neither a label nor a comment. -/
theorem isRunnable_of_beginsub (h : command.startsWith beginsub = true) :
    command.isRunnable = true := by
  obtain ⟨first, rest, htokens, hfirst⟩ := tokens_of_startsWith h
  obtain ⟨c, hc, hlower⟩ := head_of_beginsub hfirst
  have hlabel : command.isLabel = false := by
    rw [isLabel, label?, htokens]
    cases rest with
    | cons => rfl
    | nil =>
      obtain ⟨cs, hcs⟩ := List.head?_eq_some_iff.1 hc
      have hopen : c ≠ '[' := by
        rintro rfl
        exact absurd hlower (by decide)
      simp [labelInner?, hcs, unbracket?, hopen]
  have hcomment : c ≠ ';' := by
    rintro rfl
    exact absurd hlower (by decide)
  simp [isRunnable, htokens, hlabel, hc, hcomment]

/-- No command is both ends of a subroutine. -/
theorem not_endsub_of_beginsub (h : command.startsWith beginsub = true) :
    command.startsWith endsub = false := by
  obtain ⟨first, rest, htokens, hfirst⟩ := tokens_of_startsWith h
  rw [startsWith, htokens]
  dsimp only
  rw [Text.sameKeyword, beq_iff_eq.1 hfirst]
  decide +kernel

end Command

namespace Machine

variable {m : Machine} {l : Line} {f : FrameHandle} {frame : Frame} {past : Past} {i j : Nat}

/-- A line that is literally `beginsub` is executed as one. -/
theorem keyword_of_beginsub {command : Command} (s : Setting) (htokens : l.tokens = command.tokens)
    (h : command.startsWith beginsub = true) : l.keyword? s m = some .beginsub := by
  obtain ⟨first, rest, hlist, hfirst⟩ := Command.tokens_of_startsWith h
  obtain ⟨c, hc, hlower⟩ := head_of_beginsub hfirst
  have hname : l.nameOf s m first = first := by
    refine nameOf_of_literal (TokenRef.of_unmarked fun hdollar => ?_)
    rw [hc] at hdollar
    cases hdollar
    exact absurd hlower (by decide)
  have hlower' : Text.asciiLower first = "beginsub" :=
    (beq_iff_eq.1 hfirst).trans (by decide +kernel)
  rw [Line.keyword?, htokens, hlist, List.head?_cons, Option.bind_some, hname,
    Keyword.ofName?, hlower']
  rfl

/-- **The body of a subroutine** begins with `beginsub` and ends with the next `endsub`. -/
structure Body (m : Machine) (frame : Frame) (i j : Nat) : Prop where
  opens : ∃ command, m.commandAt frame i = some command ∧ command.startsWith beginsub = true
  lt : i < j
  closes : m.ClosesAt frame j
  least : ∀ k, i < k → k < j → ¬ m.ClosesAt frame k

namespace Body

variable {e : Executed}

/-- A frame that comes to a `beginsub` stops at it. -/
theorem not_skipped (h : m.Body frame i j) {start stop : Nat}
    (hskips : Skips (m.commandAt frame) start stop) (hstart : start ≤ i) : stop ≤ i := by
  obtain ⟨command, hcommand, hbegin⟩ := h.opens
  refine Nat.le_of_not_lt fun hlt => ?_
  have hfalse := hskips.2 i command hstart hlt hcommand
  rw [Command.isRunnable_of_beginsub hbegin] at hfalse
  cases hfalse

/-- The first line of a body does not end it. -/
theorem not_closesAt (h : m.Body frame i j) : ¬ m.ClosesAt frame i := by
  rintro ⟨command, hcommand, hends⟩
  obtain ⟨first, hfirst, hbegin⟩ := h.opens
  rw [hfirst] at hcommand
  cases hcommand
  rw [Command.not_endsub_of_beginsub hbegin] at hends
  cases hends

/-- The frame of a line, as the line found it. -/
theorem exists_frame (hstands : e.line.In e.machine) (htext : e.commandAt = m.commandAt frame) :
    ∃ own command, e.machine.frames.get? e.line.frame = some own ∧
      e.line.count = own.commands.length ∧ e.machine.commandAt own = m.commandAt frame ∧
      m.commandAt frame e.line.index = some command ∧ e.line.tokens = command.tokens := by
  obtain ⟨own, c, command, hown, -, hc, hget, hcount, -, htokens⟩ := hstands
  have hsame : e.machine.commandAt own = m.commandAt frame := by
    rw [← htext]
    funext index
    rw [Executed.commandAt, hown, Option.bind_some]
  refine ⟨own, command, hown, hcount, hsame, ?_, htokens⟩
  rw [← hsame, commandAt, hc, Option.bind_some, hget]

/-- **A `beginsub` leads behind the body.** -/
theorem landing_of_opening (h : m.Body frame i j) (hstands : e.line.In e.machine)
    (htext : e.commandAt = m.commandAt frame) (hindex : e.line.index = i) : e.landing = j + 1 := by
  obtain ⟨own, command, hown, -, hsame, hcommand, htokens⟩ := exists_frame hstands htext
  obtain ⟨first, hfirst, hbegin⟩ := h.opens
  rw [hindex, hfirst] at hcommand
  cases hcommand
  have hcloses : ∀ k, e.machine.ClosesAt own k ↔ m.ClosesAt frame k := fun k => by
    rw [ClosesAt, ClosesAt, hsame]
  rcases landing_of_beginsub (keyword_of_beginsub e.setting htokens hbegin) hown with
    ⟨k, hlt, hends, hbefore, hlanding⟩ | ⟨hnone, -⟩
  · rw [hindex] at hlt hbefore
    have hge : j ≤ k := Nat.le_of_not_lt fun hlt' => h.least k hlt hlt' ((hcloses k).1 hends)
    have hle : k ≤ j := Nat.le_of_not_lt fun hlt' => hbefore j h.lt hlt' ((hcloses j).2 h.closes)
    rw [Executed.landing, hlanding, Nat.le_antisymm hle hge]
  · exact absurd ((hcloses j).2 h.closes) (hnone j (hindex ▸ h.lt))

/-- **A line outside the body that is no jump** does not lead into it. -/
theorem outside_of_not_diverts (h : m.Body frame i j) (hstands : e.line.In e.machine)
    (htext : e.commandAt = m.commandAt frame) (hdiverts : ¬ e.Diverts)
    (hp : e.line.index < i ∨ j < e.line.index) {q : Nat} {command : Command}
    (hskips : Skips (m.commandAt frame) e.landing q) (hq : m.commandAt frame q = some command) :
    q ≤ i ∨ j < q := by
  obtain ⟨own, -, hown, hcount, hsame, -⟩ := exists_frame hstands htext
  -- either the line leads to a place up to the `beginsub`, or behind the `endsub`
  have hfrom : e.landing ≤ i ∨ j < e.landing → q ≤ i ∨ j < q :=
    Or.imp (h.not_skipped hskips) fun hlt => Nat.lt_of_lt_of_le hlt hskips.1
  rcases landing_cases hown hdiverts with hnext | hleave | hbegin
  · have hlanding : e.landing = e.line.index + 1 := hnext
    exact hfrom (by omega)
  · -- a line that leaves the script is followed by none
    have hlanding : e.landing = own.commands.length := hleave.trans hcount
    rw [← hsame] at hq
    obtain ⟨c, hc, -⟩ := Option.bind_eq_some_iff.1 hq
    have hlt := (List.getElem?_eq_some_iff.1 hc).1
    exact absurd hskips.1 (by omega)
  · have hcloses : ∀ k, e.machine.ClosesAt own k ↔ m.ClosesAt frame k := fun k => by
      rw [ClosesAt, ClosesAt, hsame]
    rcases landing_of_beginsub hbegin hown with ⟨k, hlt, hends, hbefore, hbehind⟩ | ⟨-, hnext⟩
    · have hlanding : e.landing = k + 1 := hbehind
      rw [hcloses] at hends
      have hne : k ≠ i := by
        rintro rfl
        exact h.not_closesAt hends
      have hout : k < i ∨ j ≤ k := by
        rcases Nat.lt_or_ge k i with hki | hki
        · exact .inl hki
        · exact .inr (Nat.le_of_not_lt fun hkj => h.least k (by omega) hkj hends)
      exact hfrom (by omega)
    · have hlanding : e.landing = e.line.index + 1 := hnext
      exact hfrom (by omega)

end Body

/-- **A subroutine is never fallen into.** A frame that comes into a body from outside has executed
a jump, and the `beginsub` of the body leads behind its `endsub`. -/
theorem Traced.body_entered_by_jump (h : Traced m past) (hf : m.frames.get? f = some frame)
    (hbody : m.Body frame i j) :
    (∀ before e e' after, past f = before ++ e :: e' :: after → i < e'.line.index →
      e'.line.index ≤ j →
        e.line.index < i ∨ j < e.line.index → e.Diverts) ∧
      (∀ before e e' after, past f = before ++ e :: e' :: after → e.line.index = i →
        j < e'.line.index) ∧
      ∀ e ∈ (past f).getLast?, e.line.index = i → j < frame.cursor := by
  have hrecorded := h.recorded hf
  have hpair : ∀ before e e' after, past f = before ++ e :: e' :: after →
      e.line.In e.machine ∧ e.commandAt = m.commandAt frame ∧
        Skips (m.commandAt frame) e.landing e'.line.index ∧
        ∃ command, m.commandAt frame e'.line.index = some command := by
    intro before e e' after hpast
    have he : e ∈ past f := by simp [hpast]
    have he' : e' ∈ past f := by simp [hpast]
    have hchain := hrecorded.chain
    rw [hpast] at hchain
    have hfollows := List.isChain_iff_forall_rel_of_append_cons_cons.1 hchain rfl
    rw [Executed.Follows, hrecorded.text e' he'] at hfollows
    obtain ⟨-, command, -, -, -, hcommand, -⟩ :=
      Body.exists_frame (hrecorded.stands e' he') (hrecorded.text e' he')
    exact ⟨hrecorded.stands e he, hrecorded.text e he, hfollows, command, hcommand⟩
  refine ⟨fun before e e' after hpast hi hj hp => ?_, fun before e e' after hpast hindex => ?_,
    fun e he hindex => ?_⟩
  · obtain ⟨hstands, htext, hskips, command, hcommand⟩ := hpair before e e' after hpast
    by_contra hdiverts
    have hout := hbody.outside_of_not_diverts hstands htext hdiverts hp hskips hcommand
    omega
  · obtain ⟨hstands, htext, hskips, -⟩ := hpair before e e' after hpast
    have hlanding := hbody.landing_of_opening hstands htext hindex
    exact Nat.lt_of_lt_of_le (by omega) hskips.1
  · have hmem : e ∈ past f := List.mem_of_getLast? he
    have hlanding :=
      hbody.landing_of_opening (hrecorded.stands e hmem) (hrecorded.text e hmem) hindex
    exact Nat.lt_of_lt_of_le (by omega) (hrecorded.cursor e he).1

/-- The script came into the body behind the call by the call. -/
theorem greeted_entered_by_jump : Traced greeted.machine pastGreeted ∧
    ∃ frame, greeted.machine.frames.get? ⟨1⟩ = some frame ∧ greeted.machine.Body frame 1 3 ∧
      ∃ e e', pastGreeted ⟨1⟩ = [e, e'] ∧ e.line.index = 0 ∧ e'.line.index = 2 ∧ e.Diverts := by
  obtain ⟨hends, hindices⟩ : (greeted.machine.frames.get? ⟨1⟩).map (fun frame =>
      ((greeted.machine.commandAt frame 1).any (·.startsWith beginsub),
        (greeted.machine.commandAt frame 2).any (·.startsWith endsub),
        (greeted.machine.commandAt frame 3).any (·.startsWith endsub))) = some (true, false, true) ∧
      (pastGreeted ⟨1⟩).map (·.line.index) = [0, 2] := by
    decide +kernel
  obtain ⟨frame, hf, heq⟩ := Option.map_eq_some_iff.1 hends
  obtain ⟨hopens, hinner, hcloses⟩ : _ ∧ _ ∧ _ := by simpa only [Prod.mk.injEq] using heq
  have hbody : greeted.machine.Body frame 1 3 := by
    refine ⟨(Option.any_eq_true _ _).1 hopens, by decide, (Option.any_eq_true _ _).1 hcloses,
      fun k hlt hlt' hk => ?_⟩
    obtain rfl : k = 2 := by omega
    rw [(Option.any_eq_true _ _).2 hk] at hinner
    cases hinner
  obtain ⟨e, rest, hpast, hfirst, hrest⟩ := List.map_eq_cons_iff.1 hindices
  obtain ⟨e', rest, rfl, hsecond, hnil⟩ := List.map_eq_cons_iff.1 hrest
  obtain rfl := List.map_eq_nil_iff.1 hnil
  obtain ⟨hjump, -⟩ := traced_greeted.body_entered_by_jump hf hbody
  exact ⟨traced_greeted, frame, hf, hbody, e, e', hpast, hfirst, hsecond,
    hjump [] e e' [] hpast (by omega) (by omega) (.inl (by omega))⟩

end Machine

end StepScript
