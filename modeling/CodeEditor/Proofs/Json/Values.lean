import CodeEditor.Proofs.Json.Tokens

/-!
# Reading written values

From the tokens of a value the machine comes back with that value, in whatever frames it was when
it met them. It takes no number right behind another one, so the tokens of a value stay apart when
they are written, and the value is read from its text.
-/

namespace CodeEditor.JsonValue

variable {open_ : List Frame} {rest : List JsonToken}

/-! ## Tokens -/

namespace Machine

/-- Takes the tokens one after the other. -/
def run (machine : Machine) (tokens : List JsonToken) : Option Machine := tokens.foldlM step machine

theorem run_cons {machine next : Machine} {token : JsonToken} (h : machine.step token = some next)
    (tokens : List JsonToken) : machine.run (token :: tokens) = next.run tokens := by
  unfold run
  rw [List.foldlM_cons, h]
  rfl

theorem run_cons_eq_some {machine last : Machine} {token : JsonToken} {tokens : List JsonToken} :
    machine.run (token :: tokens) = some last ↔
      ∃ next, machine.step token = some next ∧ next.run tokens = some last :=
  Option.bind_eq_some_iff

end Machine

open Machine (run_cons run_cons_eq_some)

/-- The tokens of a value do not begin with the end of an array. -/
theorem exists_tokens_eq_cons (value : JsonValue) :
    ∃ first more, value.tokens = first :: more ∧ first ≠ .closeBracket := by
  match value with
  | .null => exact ⟨_, _, rfl, nofun⟩
  | .bool value => exact ⟨_, _, rfl, nofun⟩
  | .number numeral => exact ⟨_, _, rfl, nofun⟩
  | .string text => exact ⟨_, _, rfl, nofun⟩
  | .array [] => exact ⟨_, _, rfl, nofun⟩
  | .array (item :: items) => exact ⟨_, _, rfl, nofun⟩
  | .object [] => exact ⟨_, _, rfl, nofun⟩
  | .object (member :: members) => exact ⟨_, _, rfl, nofun⟩

/-- The first item of an array is taken as any other. -/
theorem run_firstItem (item : JsonValue) :
    (Machine.firstItem open_).run (item.tokens ++ rest) =
      (Machine.value (.array [] :: open_)).run (item.tokens ++ rest) := by
  obtain ⟨first, more, htokens, hfirst⟩ := exists_tokens_eq_cons item
  have hstep : (Machine.firstItem open_).step first =
      (Machine.value (.array [] :: open_)).step first := by
    cases first <;> first | rfl | exact absurd rfl hfirst
  unfold Machine.run
  rw [htokens, List.cons_append, List.foldlM_cons, List.foldlM_cons, hstep]

mutual

/-- The machine comes back from the tokens of a value with that value. -/
theorem run_tokens (value : JsonValue) (open_ : List Frame) (rest : List JsonToken) :
    (Machine.value open_).run (value.tokens ++ rest) = (Machine.done value open_).run rest := by
  match value with
  | .null => rfl
  | .bool value => rfl
  | .number numeral => rfl
  | .string text => rfl
  | .array [] => rfl
  | .array (item :: items) =>
    simp only [tokens, List.cons_append, List.append_assoc, List.nil_append]
    rw [run_cons rfl, run_firstItem, run_tokens item]
    exact run_itemTokens items item [] open_ rest
  | .object [] => rfl
  | .object ((key, value) :: members) =>
    simp only [tokens, List.cons_append, List.append_assoc, List.nil_append]
    rw [run_cons rfl, run_cons rfl, run_cons rfl, run_tokens value]
    exact run_memberTokens members key value [] open_ rest

theorem run_itemTokens (items : List JsonValue) (item : JsonValue) (read : List JsonValue)
    (open_ : List Frame) (rest : List JsonToken) :
    (Machine.done item (.array read :: open_)).run (itemTokens items ++ .closeBracket :: rest) =
      (Machine.done (.array (read.reverse ++ item :: items)) open_).run rest := by
  match items with
  | [] => rw [itemTokens, List.nil_append, run_cons rfl, List.reverse_cons]
  | next :: items =>
    simp only [itemTokens, List.cons_append, List.append_assoc]
    rw [run_cons rfl, run_tokens next, run_itemTokens items next (item :: read),
      List.reverse_cons, List.append_assoc, List.singleton_append]

theorem run_memberTokens (members : List (JsonText × JsonValue)) (key : JsonText)
    (value : JsonValue) (read : List (JsonText × JsonValue)) (open_ : List Frame)
    (rest : List JsonToken) :
    (Machine.done value (.object read key :: open_)).run
        (memberTokens members ++ .closeBrace :: rest) =
      (Machine.done (.object (read.reverse ++ (key, value) :: members)) open_).run rest := by
  match members with
  | [] => rw [memberTokens, List.nil_append, run_cons rfl, List.reverse_cons]
  | (nextKey, next) :: members =>
    simp only [memberTokens, List.cons_append, List.append_assoc]
    rw [run_cons rfl, run_cons rfl, run_cons rfl, run_tokens next,
      run_memberTokens members nextKey next ((key, value) :: read), List.reverse_cons,
      List.append_assoc, List.singleton_append]

end

theorem run_tokens_nil (value : JsonValue) :
    (Machine.value []).run value.tokens = some (.done value []) := by
  rw [← List.append_nil value.tokens]
  exact run_tokens value [] []

theorem ofTokens?_tokens (value : JsonValue) : ofTokens? value.tokens = some value := by
  have hrun := run_tokens_nil value
  unfold Machine.run at hrun
  rw [ofTokens?, hrun]

/-! ## Neighbours -/

theorem step_done_number (value : JsonValue) (open_ : List Frame) (numeral : Numeral) :
    (Machine.done value open_).step (.number numeral) = none := by
  match open_ with
  | [] => rfl
  | .array items :: open_ => rfl
  | .object members key :: open_ => rfl

theorem exists_done_of_step_number {machine next : Machine} {numeral : Numeral}
    (h : machine.step (.number numeral) = some next) :
    ∃ value open_, next = .done value open_ := by
  cases machine with
  | value open_ => exact ⟨_, _, (Option.some.inj h).symm⟩
  | firstItem open_ => exact ⟨_, _, (Option.some.inj h).symm⟩
  | firstKey open_ => nomatch h
  | key members open_ => nomatch h
  | colon members key open_ => nomatch h
  | done value open_ => rw [step_done_number] at h; nomatch h

/-- The machine takes no number behind a number. -/
theorem apart_of_step {machine middle last : Machine} {token next : JsonToken}
    (htoken : machine.step token = some middle) (hnext : middle.step next = some last) :
    token.Apart next := by
  intro hnumber
  cases token with
  | number numeral =>
    obtain ⟨value, open_, rfl⟩ := exists_done_of_step_number htoken
    cases next with
    | number numeral => rw [step_done_number] at hnext; nomatch hnext
    | _ => rfl
  | _ => nomatch hnumber

theorem apart_of_run {tokens : List JsonToken} {machine last : Machine}
    (h : machine.run tokens = some last) : tokens.IsChain JsonToken.Apart := by
  induction tokens generalizing machine with
  | nil => exact .nil
  | cons token tokens ih =>
    obtain ⟨middle, hmiddle, htokens⟩ := run_cons_eq_some.mp h
    cases tokens with
    | nil => exact .singleton token
    | cons next tokens =>
      obtain ⟨last, hlast, -⟩ := run_cons_eq_some.mp htokens
      exact .cons_cons (apart_of_step hmiddle hlast) (ih htokens)

/-! ## Texts -/

/-- A value all of whose numerals can be written. -/
def WellFormed (value : JsonValue) : Prop := ∀ token ∈ value.tokens, token.WellFormed

theorem wellFormed_null : WellFormed null := by simp [WellFormed, tokens, JsonToken.WellFormed]

theorem wellFormed_bool (value : Bool) : WellFormed (bool value) := by
  simp [WellFormed, tokens, JsonToken.WellFormed]

theorem wellFormed_number {numeral : Numeral} (h : numeral.WellFormed) :
    WellFormed (number numeral) := by
  simpa [WellFormed, tokens, JsonToken.WellFormed]

theorem wellFormed_text (written : String) : WellFormed (text written) := by
  simp [WellFormed, text, tokens, JsonToken.WellFormed]

theorem wellFormed_itemTokens {items : List JsonValue} (h : ∀ item ∈ items, WellFormed item) :
    ∀ token ∈ itemTokens items, token.WellFormed := by
  induction items with
  | nil => nofun
  | cons item items ih =>
    obtain ⟨hitem, hitems⟩ := List.forall_mem_cons.mp h
    simp only [itemTokens, List.forall_mem_append, List.forall_mem_cons]
    exact ⟨⟨trivial, hitem⟩, ih hitems⟩

theorem wellFormed_memberTokens {members : List (JsonText × JsonValue)}
    (h : ∀ member ∈ members, WellFormed member.2) :
    ∀ token ∈ memberTokens members, token.WellFormed := by
  induction members with
  | nil => nofun
  | cons member members ih =>
    obtain ⟨hmember, hmembers⟩ := List.forall_mem_cons.mp h
    simp only [memberTokens, List.forall_mem_append, List.forall_mem_cons]
    exact ⟨⟨trivial, trivial, trivial, hmember⟩, ih hmembers⟩

theorem wellFormed_array {items : List JsonValue} (h : ∀ item ∈ items, WellFormed item) :
    WellFormed (array items) := by
  unfold WellFormed
  cases items with
  | nil => simp [tokens, JsonToken.WellFormed]
  | cons item items =>
    obtain ⟨hitem, hitems⟩ := List.forall_mem_cons.mp h
    simp only [tokens, List.forall_mem_append, List.forall_mem_cons]
    exact ⟨⟨⟨trivial, hitem⟩, wellFormed_itemTokens hitems⟩, trivial, nofun⟩

theorem wellFormed_object {members : List (JsonText × JsonValue)}
    (h : ∀ member ∈ members, WellFormed member.2) : WellFormed (object members) := by
  unfold WellFormed
  cases members with
  | nil => simp [tokens, JsonToken.WellFormed]
  | cons member members =>
    obtain ⟨hmember, hmembers⟩ := List.forall_mem_cons.mp h
    simp only [tokens, List.forall_mem_append, List.forall_mem_cons]
    exact ⟨⟨⟨trivial, trivial, trivial, hmember⟩, wellFormed_memberTokens hmembers⟩, trivial,
      nofun⟩

/-- A value is read from what is written for it. -/
theorem read?_write_of_wellFormed {value : JsonValue} (h : value.WellFormed) :
    read? value.write = some value := by
  have hread := JsonToken.readAll_write [] h (apart_of_run (run_tokens_nil value))
    (Nat.lt_succ_of_le (JsonToken.length_le_length_flatMap h))
  unfold read? write
  rw [String.toList_ofList]
  dsimp only
  rw [hread]
  exact ofTokens?_tokens value

end CodeEditor.JsonValue
