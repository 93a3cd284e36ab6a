import Mathlib.Data.List.TakeDrop
import Mathlib.Data.List.TakeWhile
import StepScript.Proofs.Host.Confinement

/-!
# Proofs/Host/Scoping — which tokens name one variable

A token that names a variable spells a scope and a name. Seen from an invocation, the scope picks a
cell. Two such tokens, seen from any two invocations, are one variable exactly if their cells and
the lower case of their names agree, and setting a variable is seen through all its tokens and
through no other.

* `Scope.Spells` — how variables are written.
* `Scope.Shared` — two invocations have one cell for a scope.
* `Machine.Reachable.scoping` — what setting a variable changes, as every invocation sees it.
-/

namespace StepScript

/-! ## How variables are written -/

/-- The word for a scope. -/
def Scope.word : Scope → String
  | .frame => "local"
  | .thread => "thread"
  | .target => "target"
  | .global => "global"

/-- **How a variable is written**: `$name` in a frame, or `$scope#name` with the word in any
case. -/
inductive Scope.Spells (name : String) : Scope → String → Prop where
  | short (hplain : '#' ∉ name.toList) (hempty : name ≠ "") (hresult : name ≠ "$") :
    Spells name .frame ("$" ++ name)
  | long {scope : Scope} {word : String} (hword : Text.sameKeyword word scope.word = true)
    (hempty : name ≠ "") :
    Spells name scope ("$" ++ word ++ "#" ++ name)

/-- A scope is named by its word, in upper and in lower case. -/
theorem Scope.ofName?_eq_some_iff {word : String} {scope : Scope} :
    Scope.ofName? word = some scope ↔ Text.sameKeyword word scope.word = true := by
  simp only [ofName?, Text.sameKeyword, beq_iff_eq]
  refine ⟨fun h => ?_, fun h => ?_⟩
  · repeat' split at h
    all_goals first | (cases h; assumption) | cases h
  · cases scope <;> rw [h] <;> decide

theorem Scope.notMem_word {word : String} {scope : Scope}
    (h : Text.sameKeyword word scope.word = true) :
    '#' ∉ word.toList := by
  intro hmem
  have hmark := Text.mem_of_sameKeyword h hmem
  revert hmark
  cases scope <;> decide

namespace TokenRef

theorem span_of_notMem {word : List Char} (h : '#' ∉ word) (rest : List Char) :
    (word ++ '#' :: rest).span (· != '#') = (word, '#' :: rest) ∧
      word.span (· != '#') = (word, []) := by
  have hall : ∀ c ∈ word, (c != '#') = true := fun c hc => bne_iff_ne.2 fun heq => h (heq ▸ hc)
  rw [List.span_eq_takeWhile_dropWhile, List.span_eq_takeWhile_dropWhile,
    List.takeWhile_append_of_pos hall, List.dropWhile_append_of_pos hall,
    List.takeWhile_eq_self_iff.2 hall, List.dropWhile_eq_nil_iff.2 hall]
  simp

/-- A token with the sign of variables has a scope mark or it has none. -/
theorem cases_token (token : String) : token.toList.head? ≠ some '$' ∨
    (∃ name, '#' ∉ name.toList ∧ token = "$" ++ name) ∨
      ∃ word name, '#' ∉ word.toList ∧ token = "$" ++ word ++ "#" ++ name := by
  by_cases hhead : token.toList.head? = some '$'
  · obtain ⟨body, hbody⟩ := List.head?_eq_some_iff.1 hhead
    by_cases hmark : '#' ∈ body
    · obtain ⟨word, name, rfl, hword⟩ := List.eq_append_cons_of_mem hmark
      refine .inr (.inr ⟨String.ofList word, String.ofList name, by rwa [String.toList_ofList], ?_⟩)
      exact String.toList_inj.1 (by simp [hbody])
    · refine .inr (.inl ⟨String.ofList body, by rwa [String.toList_ofList], ?_⟩)
      exact String.toList_inj.1 (by simp [hbody])
  · exact .inl hhead

/-- Without a mark, a name after the dollar sign is that of a variable of the frame; two dollar
signs stand for the result. -/
theorem of_plain {name : String} (hplain : '#' ∉ name.toList) : TokenRef.of ("$" ++ name) =
    if name = "$" then .result else if name = "" then .literal ("$" ++ name)
    else .var .frame (Text.lower name) := by
  have hlist : ("$" ++ name).toList = '$' :: name.toList := by simp
  have hresult : "$" ++ name = resultToken ↔ name = "$" := by
    rw [← String.toList_inj, hlist, show resultToken.toList = '$' :: "$".toList from rfl,
      List.cons_inj_right, String.toList_inj]
  have hspan := (span_of_notMem hplain []).2
  rw [TokenRef.of, hlist]
  simp only [hresult, hspan]
  by_cases hname : name = ""
  · subst hname
    rfl
  · obtain ⟨c, cs, hcons⟩ := List.exists_cons_of_ne_nil (mt String.toList_eq_nil_iff.1 hname)
    simp only [if_neg hname, hcons]
    rw [← hcons, String.ofList_toList]

/-- What stands before the mark is the scope, and an unknown word is reported as such. -/
theorem of_marked {word : String} (hword : '#' ∉ word.toList) (name : String) :
    TokenRef.of ("$" ++ word ++ "#" ++ name) =
      if name = "" then .literal ("$" ++ word ++ "#" ++ name)
      else (Scope.ofName? word).elim (.unknownScope ("$" ++ word ++ "#" ++ name))
      (.var · (Text.lower name)) := by
  have hlist : ("$" ++ word ++ "#" ++ name).toList =
    '$' :: (word.toList ++ '#' :: name.toList) := by simp
  have hresult : "$" ++ word ++ "#" ++ name ≠ resultToken := by
    intro heq
    have hmem : '#' ∈ resultToken.toList := by simp [← heq]
    revert hmem
    decide
  have hspan := (span_of_notMem hword name.toList).1
  have hscope : String.ofList word.toList = word := String.ofList_toList
  rw [TokenRef.of, if_neg hresult, hlist]
  simp only [hspan]
  generalize word.toList = scope at hscope
  by_cases hname : name = ""
  · subst hname
    cases scope <;> rfl
  · obtain ⟨c, cs, hcons⟩ := List.exists_cons_of_ne_nil (mt String.toList_eq_nil_iff.1 hname)
    have hcs : String.ofList (c :: cs) = name := by rw [← hcons, String.ofList_toList]
    rw [if_neg hname, hcons]
    cases scope <;> simp only [hscope, hcs] <;> cases Scope.ofName? word <;> rfl

theorem of_unmarked {token : String} (h : token.toList.head? ≠ some '$') :
    TokenRef.of token = .literal token := by
  rw [TokenRef.of, if_neg (by rintro rfl; exact h rfl)]
  split
  · next body hbody => exact absurd (by rw [hbody]; rfl) h
  · rfl

/-- **A token names a variable** exactly if it is written as one; its name comes in lower case. -/
theorem of_eq_var_iff {token key : String} {scope : Scope} :
    TokenRef.of token = .var scope key ↔
      ∃ name, scope.Spells name token ∧ key = Text.lower name := by
  refine ⟨fun h => ?_, ?_⟩
  · rcases cases_token token with hhead | ⟨name, hplain, rfl⟩ | ⟨word, name, hword, rfl⟩
    · rw [of_unmarked hhead] at h
      cases h
    · rw [of_plain hplain] at h
      split_ifs at h with hresult hempty
      cases h
      exact ⟨name, .short hplain hempty hresult, rfl⟩
    · rw [of_marked hword] at h
      split_ifs at h with hempty
      cases hscope : Scope.ofName? word with
      | none =>
        rw [hscope] at h
        cases h
      | some scope =>
        rw [hscope] at h
        cases h
        exact ⟨name, .long (Scope.ofName?_eq_some_iff.1 hscope) hempty, rfl⟩
  · rintro ⟨name, hspells, rfl⟩
    cases hspells with
    | short hplain hempty hresult => rw [of_plain hplain, if_neg hresult, if_neg hempty]
    | long hword hempty =>
      rw [of_marked (Scope.notMem_word hword), if_neg hempty, Scope.ofName?_eq_some_iff.2 hword]
      rfl

end TokenRef

/-! ## Cells seen from invocations -/

/-- **Two invocations share the variables of a scope.** -/
def Scope.Shared (m : Machine) (t t' : ThreadHandle) : Scope → Prop
  | .frame => t = t'
  | .thread => t = t'
  | .target => m.targetAt t = m.targetAt t'
  | .global => True

/-- The cell for a scope, of the given owners. -/
def Scope.cell (f : FrameHandle) (t : ThreadHandle) (g : TargetHandle) : Scope → Cell
  | .frame => .frame f
  | .thread => .thread t
  | .target => .target g
  | .global => .global

namespace Machine

variable {m m' : Machine} {t t' : ThreadHandle} {scope scope' : Scope} {cell cell' : Cell}
  {key token value : String}

/-- How the host sees an invocation. -/
def outlook (m : Machine) (t : ThreadHandle) : Vantage := ⟨t, m.frameOf t, .invocation t⟩

/-- An invocation that is live looks out from its innermost frame. -/
theorem run_vantageOf (ht : m.isLive t = true) :
    (vantageOf t).run m = ⟨some (m.outlook t), m, []⟩ := by
  simp only [vantageOf, Act.run_get_bind, ht, if_true]
  rfl

/-- **The owners that a live invocation sees** are its innermost frame, itself, its target, and the
machine. -/
theorem Sound.owners_of_live (h : m.Sound) (ht : m.isLive t = true) :
    ∃ f g, m.threadAt f = some t ∧ m.frameOf t = some f ∧ m.targetAt t = some g ∧
      (m.outlook t).Backed m ∧ ∀ scope, m.cellOf (m.outlook t) scope = some (scope.cell f t g) := by
  obtain ⟨thread, hthread⟩ := Table.contains_iff.1 ht
  obtain ⟨f, below, hstack⟩ := List.exists_cons_of_ne_nil (h.owned.stack_ne_nil hthread)
  have howner := h.owned.stacks_iff.1 ⟨thread, hthread, hstack ▸ List.mem_cons_self⟩
  have htop : m.frameOf t = some f := by
    rw [frameOf, hthread, Option.bind_some, Thread.top?, hstack, List.head?_cons]
  obtain ⟨frame, hf, -⟩ := Option.map_eq_some_iff.1 howner
  obtain ⟨target, htarget, -⟩ := h.owned.target_of_thread hthread
  have hf' : m.frames.contains f = true := Table.contains_iff.2 ⟨frame, hf⟩
  have hg' : m.targets.contains thread.target = true := Table.contains_iff.2 ⟨target, htarget⟩
  refine ⟨f, thread.target, howner, htop, by rw [targetAt, hthread]; rfl,
    ⟨⟨f, htop, hf'⟩, thread, hthread, hg'⟩, ?_⟩
  intro scope
  cases scope with
  | frame => simp [cellOf, outlook, htop, Option.filter, hf', Scope.cell]
  | thread => exact if_pos ht
  | target => simp [cellOf, outlook, value_targetOf, hthread, hg', Scope.cell]
  | global => rfl

/-- **Two scopes name one cell** exactly if they are the same and the invocations share it. -/
theorem Sound.cell_eq_iff (h : m.Sound) (ht : m.isLive t = true) (ht' : m.isLive t' = true)
    (hcell : m.cellOf (m.outlook t) scope = some cell)
    (hcell' : m.cellOf (m.outlook t') scope' = some cell') :
    cell' = cell ↔ scope = scope' ∧ scope.Shared m t t' := by
  obtain ⟨f, g, howner, htop, htarget, -, hcells⟩ := h.owners_of_live ht
  obtain ⟨f', g', howner', htop', htarget', -, hcells'⟩ := h.owners_of_live ht'
  obtain rfl : scope.cell f t g = cell := Option.some.inj ((hcells scope).symm.trans hcell)
  obtain rfl : scope'.cell f' t' g' = cell' := Option.some.inj ((hcells' scope').symm.trans hcell')
  -- a frame is on one stack only, and so stands for its invocation
  have hframe : f' = f ↔ t = t' := by
    refine ⟨fun hsame => ?_, fun hsame => ?_⟩
    · rw [hsame] at howner'
      exact Option.some.inj (howner.symm.trans howner')
    · rw [hsame] at htop
      exact Option.some.inj (htop'.symm.trans htop)
  have hthread : t' = t ↔ t = t' := eq_comm
  have hgroup : g' = g ↔ m.targetAt t = m.targetAt t' := by
    rw [htarget, htarget', Option.some.injEq, eq_comm]
  cases scope <;> cases scope' <;> simp [Scope.cell, Scope.Shared, hframe, hthread, hgroup]

/-! ## What the host reads and sets -/

/-- The value of the variable that a token names, as an invocation sees it, if it is set. -/
def seen (m : Machine) (t : ThreadHandle) (token : String) : Option String :=
  match TokenRef.of token with
  | .var scope key => (m.cellOf (m.outlook t) scope).bind (m.valueAt · key)
  | _ => none

/-- Resolving a token gives the value that is seen, or the empty text. -/
theorem value_resolveValue (ht : m.isLive t = true) (htoken : TokenRef.of token = .var scope key)
    (s : Setting) :
    ((resolveValue s t token).run m).value = (m.seen t token).getD "" := by
  rw [resolveValue, Act.run_bind, run_vantageOf ht]
  simp only [readToken, seen, htoken, Act.run_bind, Act.run_pure, value_getVar]

/-- **Asking for a variable and reading it agree**: there is one exactly if a value is seen. -/
theorem value_hasVariable (ht : m.isLive t = true) (token : String) :
    ((hasVariable t token).run m).value = (m.seen t token).isSome := by
  rw [hasVariable, Act.run_bind, run_vantageOf ht, seen]
  cases TokenRef.of token with
  | var scope key => simp only [hasVar_eq_isSome_getVar, Act.run_map, value_getVar]
  | literal | result | unknownScope => rfl

/-- Setting a variable puts the value into the cell that its scope means, and into no other. -/
theorem Sound.run_setVariable (h : m.Sound) (ht : m.isLive t = true)
    (htoken : TokenRef.of token = .var scope key) (value : String) :
    ∃ cell, m.cellOf (m.outlook t) scope = some cell ∧
      (setVariable t token value).run m = ⟨some value, m.assign cell key value, []⟩ := by
  obtain ⟨-, -, -, -, -, hbacked, -⟩ := h.owners_of_live ht
  obtain ⟨cell, hcell, hrun⟩ := hbacked.run_setVar scope key value
  refine ⟨cell, hcell, ?_⟩
  rw [setVariable, Act.run_bind, run_vantageOf ht]
  simp only [assignToken, htoken, hrun]
  rfl

/-- A token that names no variable cannot be set. -/
theorem run_setVariable_of_not_var (ht : m.isLive t = true)
    (htoken : ∀ scope key, TokenRef.of token ≠ .var scope key) (value : String) :
    ((setVariable t token value).run m).value = none ∧
      ((setVariable t token value).run m).state = m := by
  rw [setVariable, Act.run_bind, run_vantageOf ht]
  dsimp only
  unfold assignToken
  cases hof : TokenRef.of token with
  | var scope key => exact absurd hof (htoken scope key)
  | literal | result | unknownScope => exact ⟨rfl, rfl⟩

/-- **Two tokens, each seen from an invocation, name one variable.** -/
def OneVariable (m : Machine) (t : ThreadHandle) (a : String) (t' : ThreadHandle) (b : String) :
    Prop :=
  ∃ (scope : Scope) (name name' : String), scope.Spells name a ∧ scope.Spells name' b ∧
    Text.lower name = Text.lower name' ∧ scope.Shared m t t'

/-- Two tokens mean one variable if they are of the same scope, which the two invocations share, and
of the same name in lower case. -/
theorem oneVariable_iff {a b key' : String} (ha : TokenRef.of a = .var scope key)
    (hb : TokenRef.of b = .var scope' key') :
    m.OneVariable t a t' b ↔ (scope = scope' ∧ scope.Shared m t t') ∧ key' = key := by
  refine ⟨?_, ?_⟩
  · rintro ⟨_, name, name', hspells, hspells', hname, hshared⟩
    cases ha.symm.trans (TokenRef.of_eq_var_iff.2 ⟨name, hspells, rfl⟩)
    cases hb.symm.trans (TokenRef.of_eq_var_iff.2 ⟨name', hspells', rfl⟩)
    exact ⟨⟨rfl, hshared⟩, hname.symm⟩
  · rintro ⟨⟨rfl, hshared⟩, rfl⟩
    obtain ⟨name, hspells, rfl⟩ := TokenRef.of_eq_var_iff.1 ha
    obtain ⟨name', hspells', hname⟩ := TokenRef.of_eq_var_iff.1 hb
    exact ⟨scope, name, name', hspells, hspells', hname, hshared⟩

/-- **Setting a variable** is seen through the tokens that name it, and through no other. -/
theorem Sound.seen_assign {a b key' : String} (h : m.Sound) (ht : m.isLive t = true)
    (ht' : m.isLive t' = true) (ha : TokenRef.of a = .var scope key)
    (hb : TokenRef.of b = .var scope' key') (hcell : m.cellOf (m.outlook t) scope = some cell)
    (value : String) :
    (m.assign cell key value).isLive t' = true ∧
      (m.OneVariable t a t' b → (m.assign cell key value).seen t' b = some value) ∧
      (¬ m.OneVariable t a t' b → (m.assign cell key value).seen t' b = m.seen t' b) := by
  obtain ⟨_, _, -, -, -, -, hcells'⟩ := h.owners_of_live ht'
  have hvars := isSome_varsAt_of_cellOf hcell
  have hlinks := (Edit.assign hvars key value).sameLinks
  have houtlook : (m.assign cell key value).outlook t' = m.outlook t' := by
    rw [outlook, frameOf_eq_head?, hlinks.stackAt, ← frameOf_eq_head?, outlook]
  have hlive := congrArg Option.isSome (hlinks.targetAt t')
  rw [targetAt, targetAt, Option.isSome_map, Option.isSome_map] at hlive
  rw [oneVariable_iff ha hb, ← h.cell_eq_iff ht ht' hcell (hcells' scope'), seen, seen, hb]
  simp only [houtlook, cellOf_congr hlinks, hcells', Option.bind_some, valueAt_assign,
    hvars, and_true]
  exact ⟨hlive.trans ht', fun hone => if_pos hone, fun hone => if_neg hone⟩

/-! ## The law of scopes -/

/-- **Which tokens name one variable.** Setting a variable gives the value back, and all invocations
see it through every token that names the variable, and see every other variable as before. Tokens
are variables exactly if they are written as such; `$x` is `$local#x`; the host's globals are the
variables `$global#x`; setting any other token does nothing. -/
theorem Reachable.scoping (hreach : m.Reachable) (ht : m.isLive t = true) (ht' : m.isLive t' = true)
    (s : Setting) :
    (∀ a b scope scope' key key' value, TokenRef.of a = .var scope key →
      TokenRef.of b = .var scope' key' →
      ∃ m', (setVariable t a value).run m = ⟨some value, m', []⟩ ∧
        (m.OneVariable t a t' b →
          ((resolveValue s t' b).run m').value = value ∧ ((hasVariable t' b).run m').value = true) ∧
        (¬ m.OneVariable t a t' b →
          ((resolveValue s t' b).run m').value = ((resolveValue s t' b).run m).value ∧
            ((hasVariable t' b).run m').value = ((hasVariable t' b).run m).value)) ∧
    (∀ token scope key, TokenRef.of token = .var scope key ↔
      ∃ name, scope.Spells name token ∧ key = Text.lower name) ∧
    (∀ name, '#' ∉ name.toList → name ≠ "" → name ≠ "$" →
      TokenRef.of ("$" ++ name) = .var .frame (Text.lower name) ∧
        TokenRef.of ("$local#" ++ name) = .var .frame (Text.lower name)) ∧
    (∀ name, name ≠ "" →
      ((resolveValue s t ("$global#" ++ name)).run m).value = (m.global? name).getD "" ∧
        ((hasVariable t ("$global#" ++ name)).run m).value = (m.global? name).isSome ∧
        ∀ value, ((setVariable t ("$global#" ++ name) value).run m).state =
          m.setGlobal name value) ∧
    (∀ token value, (∀ scope key, TokenRef.of token ≠ .var scope key) →
      ((setVariable t token value).run m).value = none ∧
        ((setVariable t token value).run m).state = m) := by
  have hsound := hreach.sound
  refine ⟨?_, fun _ _ _ => TokenRef.of_eq_var_iff, fun name hplain hempty hresult => ?_,
    fun name hempty => ?_, fun token value htoken => run_setVariable_of_not_var ht htoken value⟩
  · intro a b scope scope' key key' value ha hb
    obtain ⟨cell, hcell, hrun⟩ := hsound.run_setVariable ht ha value
    obtain ⟨hlive, hsame, hother⟩ := hsound.seen_assign ht ht' ha hb hcell value
    refine ⟨_, hrun, fun hone => ?_, fun hone => ?_⟩
    · rw [value_resolveValue hlive hb, value_hasVariable hlive, hsame hone]
      exact ⟨rfl, rfl⟩
    · rw [value_resolveValue hlive hb, value_hasVariable hlive, hother hone,
        ← value_resolveValue ht' hb, ← value_hasVariable ht']
      exact ⟨rfl, rfl⟩
  · exact ⟨TokenRef.of_eq_var_iff.2 ⟨name, .short hplain hempty hresult, rfl⟩,
      TokenRef.of_eq_var_iff.2 ⟨name, .long (Text.sameKeyword_refl _) hempty, rfl⟩⟩
  · have hof : TokenRef.of ("$global#" ++ name) = .var .global (Text.lower name) :=
      TokenRef.of_eq_var_iff.2 ⟨name, .long (Text.sameKeyword_refl _) hempty, rfl⟩
    have hseen : m.seen t ("$global#" ++ name) = m.global? name := by
      rw [seen, hof]
      rfl
    rw [value_resolveValue ht hof, value_hasVariable ht, hseen]
    refine ⟨rfl, rfl, fun value => ?_⟩
    obtain ⟨cell, hcell, hrun⟩ := hsound.run_setVariable ht hof value
    cases hcell
    rw [hrun]
    rfl

/-- One of two invocations on an entity sets a variable of the entity, and the other sees it. -/
theorem abreast_scoped :
    abreast.machine.Reachable ∧ abreast.machine.OneVariable ⟨1⟩ "$Target#Mood" ⟨2⟩ "$target#mood" ∧
      ∃ m', (setVariable ⟨1⟩ "$Target#Mood" "glad").run abreast.machine = ⟨some "glad", m', []⟩ ∧
        ((resolveValue {} ⟨2⟩ "$target#mood").run m').value = "glad" := by
  have hlive : abreast.machine.isLive ⟨1⟩ = true ∧ abreast.machine.isLive ⟨2⟩ = true := by
    decide +kernel
  have ha : TokenRef.of "$Target#Mood" = .var .target "mood" := by decide +kernel
  have hb : TokenRef.of "$target#mood" = .var .target "mood" := by decide +kernel
  have hshared : abreast.machine.targetAt ⟨1⟩ = abreast.machine.targetAt ⟨2⟩ := by decide +kernel
  have hone := (oneVariable_iff ha hb).2 ⟨⟨rfl, hshared⟩, rfl⟩
  obtain ⟨m', hrun, hseen, -⟩ :=
    (reachable_abreast.scoping hlive.1 hlive.2 {}).1
      "$Target#Mood" "$target#mood" _ _ _ _ "glad" ha hb
  exact ⟨reachable_abreast, hone, m', hrun, (hseen hone).1⟩

end Machine

end StepScript
