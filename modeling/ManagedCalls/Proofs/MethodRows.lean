import ManagedCalls.Assembly
import Mathlib.Data.List.Dedup
import Mathlib.Data.List.Range

/-!
Which bodies an assembly keeps of those that were added. A body that was given has its own
token, a method that was defined gets the row after the number of bodies so far. So the rows
of defined methods are apart from each other, but a given body may have taken the row of a
method that is defined later. Then the method takes its place.
-/

namespace ManagedCalls

variable {κ : Type}

namespace AssemblyBuilder

/-- The last body with the token is found. -/
theorem body?_build (b : AssemblyBuilder κ) (token : Token) :
    b.build.body? token = b.bodies.reverse.find? fun body => body.token == token := by
  rw [build, Assembly.body?]
  dsimp only
  induction b.bodies using List.reverseRecOn with
  | nil => rfl
  | append_singleton bodies body ih =>
    rw [List.foldl_concat, List.reverse_concat, insertBody, List.find?_cons, List.find?_cons, ← ih,
      List.find?_filter]
    by_cases htoken : body.token = token
    · simp [htoken]
    · have hother (m : MethodBody) :
          decide ((m.token != body.token) = true ∧ (m.token == token) = true) =
            (m.token == token) := by
        by_cases hm : m.token = token
        · simp [hm, Ne.symm htoken]
        · simp [hm]
      simp only [hother]

theorem isSome_body?_build (b : AssemblyBuilder κ) (token : Token) :
    (b.build.body? token).isSome ↔ token ∈ b.bodies.map MethodBody.token := by
  rw [body?_build, List.find?_isSome]
  simp

theorem body?_build_of_nodup (b : AssemblyBuilder κ)
    (h : (b.bodies.map MethodBody.token).Nodup) {body : MethodBody} (hbody : body ∈ b.bodies) :
    b.build.body? body.token = some body := by
  have hsome : (b.build.body? body.token).isSome :=
    (isSome_body?_build b _).mpr (List.mem_map_of_mem hbody)
  obtain ⟨found, hfound⟩ := Option.isSome_iff_exists.mp hsome
  rw [hfound]
  rw [body?_build] at hfound
  have htoken : found.token = body.token := by simpa using List.find?_some hfound
  have hmem : found ∈ b.bodies := List.mem_reverse.mp (List.mem_of_find?_eq_some hfound)
  exact congrArg some (List.inj_on_of_nodup_map h hmem hbody htoken)

theorem nodup_tokens_build (b : AssemblyBuilder κ) :
    (b.build.methods.map MethodBody.token).Nodup := by
  rw [build]
  dsimp only
  induction b.bodies using List.reverseRecOn with
  | nil => exact List.nodup_nil
  | append_singleton bodies body ih =>
    have htokens (methods : List MethodBody) : (insertBody methods body).map MethodBody.token =
        body.token :: (methods.map MethodBody.token).filter (· != body.token) := by
      rw [insertBody, List.map_cons, List.filter_map]
      rfl
    rw [List.foldl_concat, htokens, List.nodup_cons]
    exact ⟨by simp, ih.filter _⟩

/-- One body is kept for each token. -/
theorem tokens_build_perm (b : AssemblyBuilder κ) :
    (b.build.methods.map MethodBody.token).Perm (b.bodies.map MethodBody.token).dedup := by
  refine (List.perm_ext_iff_of_nodup b.nodup_tokens_build (List.nodup_dedup _)).mpr fun token => ?_
  rw [List.mem_dedup, ← isSome_body?_build, Assembly.body?, List.find?_isSome]
  simp

/-- All bodies are kept just if no two have the same token. -/
theorem length_build_eq_iff (b : AssemblyBuilder κ) :
    b.build.methods.length = b.bodies.length ↔ (b.bodies.map MethodBody.token).Nodup := by
  have hkept : b.build.methods.length = (b.bodies.map MethodBody.token).dedup.length := by
    rw [← b.tokens_build_perm.length_eq, List.length_map]
  have hadded : b.bodies.length = (b.bodies.map MethodBody.token).length := by
    rw [List.length_map]
  rw [hkept, hadded, ← List.dedup_eq_self]
  exact ⟨(List.dedup_sublist _).eq_of_length, congrArg List.length⟩

end AssemblyBuilder

/-- What a method is defined with. -/
structure MethodParts where
  signature : Bytes
  flags : Nat
  localsToken : Token
  code : Bytes

def MethodParts.body (parts : MethodParts) (row : Nat) : MethodBody :=
  ⟨Token.ofParts TableId.methodDef.tag row, parts.signature, parts.localsToken, parts.flags,
    AssemblyBuilder.defaultMaxStack, parts.code⟩

/-- A body is given with its token, or a method is defined that gets one. -/
inductive BodyAction where
  | given (body : MethodBody)
  | defined (parts : MethodParts)

namespace BodyAction

def perform (b : AssemblyBuilder κ) : BodyAction → AssemblyBuilder κ
  | given body => b.method body
  | defined parts => b.methodDef parts.signature parts.flags parts.localsToken parts.code

def performAll (actions : List BodyAction) (b : AssemblyBuilder κ) : AssemblyBuilder κ :=
  actions.foldl perform b

/-- The body that is added, if with it there are `row` of them. -/
def body (row : Nat) : BodyAction → MethodBody
  | given body => body
  | defined parts => parts.body row

theorem bodies_perform (b : AssemblyBuilder κ) (a : BodyAction)
    (h : b.bodies.length + 1 < 2 ^ 32) :
    (perform b a).bodies = b.bodies ++ [a.body (b.bodies.length + 1)] := by
  cases a with
  | given body => rfl
  | defined parts =>
    have hrow : min (b.bodies.length + 1) (2 ^ 32 - 1) = b.bodies.length + 1 := by omega
    simp only [perform, AssemblyBuilder.methodDef, hrow]
    rfl

/-- The bodies are added in order, and their number tells the row. -/
theorem bodies_performAll (name : String) (actions : List BodyAction)
    (h : actions.length < 2 ^ 32 - 1) :
    (performAll actions (.new name) : AssemblyBuilder κ).bodies =
      actions.mapIdx fun i a => a.body (i + 1) := by
  induction actions using List.reverseRecOn with
  | nil => rfl
  | append_singleton actions a ih =>
    rw [List.length_append, List.length_singleton] at h
    have hbodies := ih (by omega)
    have hlength := congrArg List.length hbodies
    rw [List.length_mapIdx] at hlength
    rw [performAll, List.foldl_concat, ← performAll, bodies_perform _ _ (by omega), hbodies,
      List.length_mapIdx, List.mapIdx_concat]

theorem token_mem_iff (name : String) (actions : List BodyAction) {row : Nat}
    (hrow : actions.length < row) (h : row < 2 ^ 24) :
    Token.ofParts TableId.methodDef.tag row ∈
        ((performAll actions (.new name) : AssemblyBuilder κ).bodies.map MethodBody.token) ↔
      ∃ body, given body ∈ actions ∧ body.token = Token.ofParts TableId.methodDef.tag row := by
  rw [bodies_performAll name actions (by omega), List.mem_map]
  constructor
  · rintro ⟨found, hfound, htoken⟩
    obtain ⟨i, hi, rfl⟩ := List.mem_mapIdx.mp hfound
    cases haction : actions[i] with
    | given body =>
      rw [haction] at htoken
      exact ⟨body, haction ▸ List.getElem_mem hi, htoken⟩
    | defined parts =>
      -- the method was defined before, so its row is a smaller one
      rw [haction] at htoken
      have hrows := congrArg Token.row htoken
      rw [body, MethodParts.body, Token.row_ofParts _ (by omega), Token.row_ofParts _ h] at hrows
      omega
  · rintro ⟨body, hgiven, htoken⟩
    obtain ⟨i, hi, haction⟩ := List.getElem_of_mem hgiven
    refine ⟨body, List.mem_mapIdx.mpr ⟨i, hi, ?_⟩, htoken⟩
    rw [haction]
    rfl

/-- Methods that are defined behind bodies that were given. -/
theorem bodies_performAll_given (name : String) (given : List MethodBody)
    (defined : List MethodParts) (h : given.length + defined.length < 2 ^ 32 - 1) :
    (performAll (given.map .given ++ defined.map .defined) (.new name) :
        AssemblyBuilder κ).bodies =
      given ++ defined.mapIdx fun i parts => parts.body (given.length + i + 1) := by
  have hgiven : (given.map BodyAction.given).mapIdx (fun i a => a.body (i + 1)) = given :=
    List.ext_getElem (by simp) fun i _ _ => by simp [body]
  have hdefined : (defined.map BodyAction.defined).mapIdx
        (fun i a => a.body (i + (given.map BodyAction.given).length + 1)) =
      defined.mapIdx fun i parts => parts.body (given.length + i + 1) :=
    List.ext_getElem (by simp) fun i _ _ => by simp [body, Nat.add_comm i]
  rw [bodies_performAll name _ (by simpa using h), List.mapIdx_append, hgiven, hdefined]

/-- No given body has the row of a method that is defined behind it. -/
def RowsFree (given : List MethodBody) (count : Nat) : Prop :=
  ∀ body ∈ given, ∀ row, given.length < row → row ≤ given.length + count →
    body.token ≠ Token.ofParts TableId.methodDef.tag row

theorem nodup_tokens_iff {given : List MethodBody} {defined : List MethodParts}
    (hgiven : (given.map MethodBody.token).Nodup)
    (h : given.length + defined.length + 1 < 2 ^ 24) :
    ((given ++ defined.mapIdx fun i parts => parts.body (given.length + i + 1)).map
        MethodBody.token).Nodup ↔ RowsFree given defined.length := by
  have htokens : (defined.mapIdx fun i parts => parts.body (given.length + i + 1)).map
        MethodBody.token =
      (List.range' (given.length + 1) defined.length).map
        (Token.ofParts TableId.methodDef.tag) :=
    List.ext_getElem (by simp) fun i _ _ => by
      simp [MethodParts.body, Nat.add_right_comm]
  have hrows : ((List.range' (given.length + 1) defined.length).map
      (Token.ofParts TableId.methodDef.tag)).Nodup := by
    refine (List.nodup_range' ..).map_on fun i hi j hj hsame => ?_
    rw [List.mem_range'_1] at hi hj
    have hrow := congrArg Token.row hsame
    rwa [Token.row_ofParts _ (by omega), Token.row_ofParts _ (by omega)] at hrow
  rw [List.map_append, htokens, List.nodup_append]
  constructor
  · rintro ⟨-, -, hapart⟩ body hbody row hlow hhigh
    refine hapart _ (List.mem_map_of_mem hbody) _ (List.mem_map_of_mem ?_)
    rw [List.mem_range'_1]
    omega
  · intro hfree
    refine ⟨hgiven, hrows, fun token htoken other hother => ?_⟩
    obtain ⟨body, hbody, rfl⟩ := List.mem_map.mp htoken
    obtain ⟨row, hrow, rfl⟩ := List.mem_map.mp hother
    rw [List.mem_range'_1] at hrow
    exact hfree body hbody row (by omega) (by omega)

end BodyAction

namespace AssemblyBuilder

/-- A method that is defined gets the row after the number of bodies so far. The body that is
found under its token before, if any, is a given one, and the method takes its place; all
others are found as before. Behind given bodies with different tokens all bodies are kept, and
found, just if no given one has the row of a method. -/
theorem rows_free_unless_given (κ : Type) (name : String) :
    (∀ (actions : List BodyAction) (parts : MethodParts), actions.length + 1 < 2 ^ 24 →
      let b : AssemblyBuilder κ := BodyAction.performAll actions (.new name)
      let b' := BodyAction.perform b (.defined parts)
      let added := parts.body (actions.length + 1)
      (added.token.table = TableId.methodDef.tag ∧ added.token.row = actions.length + 1) ∧
        b'.bodies = b.bodies ++ [added] ∧
        ((b.build.body? added.token).isSome ↔
          ∃ body, .given body ∈ actions ∧ body.token = added.token) ∧
        ∀ token, b'.build.body? token =
          if token = added.token then some added else b.build.body? token) ∧
      ∀ (given : List MethodBody) (defined : List MethodParts),
        (given.map MethodBody.token).Nodup → given.length + defined.length + 1 < 2 ^ 24 →
        let b : AssemblyBuilder κ :=
          BodyAction.performAll (given.map .given ++ defined.map .defined) (.new name)
        b.bodies = given ++ defined.mapIdx (fun i parts => parts.body (given.length + i + 1)) ∧
          (b.build.methods.length = b.bodies.length ↔
            BodyAction.RowsFree given defined.length) ∧
          (BodyAction.RowsFree given defined.length →
            ∀ body ∈ b.bodies, b.build.body body.token = .ok body) := by
  constructor
  · intro actions parts h b b' added
    have hlength : b.bodies.length = actions.length := by
      rw [BodyAction.bodies_performAll name actions (by omega), List.length_mapIdx]
    have hbodies : b'.bodies = b.bodies ++ [added] := by
      rw [BodyAction.bodies_perform b _ (by omega), hlength]
      rfl
    refine ⟨⟨Token.table_ofParts (by decide) _, Token.row_ofParts _ h⟩, hbodies, ?_, ?_⟩
    · rw [isSome_body?_build]
      exact BodyAction.token_mem_iff name actions (Nat.lt_succ_self _) h
    · intro token
      rw [body?_build, hbodies, List.reverse_concat, List.find?_cons, ← body?_build]
      by_cases htoken : token = added.token
      · simp [htoken]
      · have hother : (added.token == token) = false := beq_false_of_ne (Ne.symm htoken)
        rw [if_neg htoken, hother]
  · intro given defined hgiven h b
    have hbodies := BodyAction.bodies_performAll_given (κ := κ) name given defined (by omega)
    have hnodup : (b.bodies.map MethodBody.token).Nodup ↔
        BodyAction.RowsFree given defined.length := by
      rw [hbodies]
      exact BodyAction.nodup_tokens_iff hgiven h
    refine ⟨hbodies, (length_build_eq_iff b).trans hnodup, fun hfree body hbody => ?_⟩
    rw [Assembly.body, body?_build_of_nodup b (hnodup.mpr hfree) hbody]

/-- A method that returns at once. -/
def returning : MethodParts := ⟨[0x00, 0x00, 0x01], 0, .null, [0x2A]⟩

/-- A method that returns zero. -/
def returningZero : MethodParts := ⟨[0x00, 0x00, 0x08], 0, .null, [0x16, 0x2A]⟩

/-- Behind a given body with the first row, two methods get the second row and the third. -/
theorem rows_free_unless_given_of_first :
    let first := returning.body 1
    let b : AssemblyBuilder Empty := (new "App").method first
    let b' : AssemblyBuilder Empty :=
      BodyAction.performAll [.given first, .defined returningZero, .defined returning] (new "App")
    b.build.body? (Token.ofParts 0x06 2) = none ∧
      b'.build.methods.length = 3 ∧ b'.build.body first.token = .ok first := by
  have hrows := rows_free_unless_given Empty "App"
  obtain ⟨-, -, htaken, -⟩ := hrows.1 [.given (returning.body 1)] returningZero (by decide)
  obtain ⟨hbodies, hkept, hfound⟩ := hrows.2 [returning.body 1] [returningZero, returning]
    (by decide) (by decide)
  have hfree : BodyAction.RowsFree [returning.body 1] 2 := by
    intro body hbody row hlow hhigh hsame
    obtain rfl := List.mem_singleton.mp hbody
    have hrow := congrArg Token.row hsame
    rw [List.length_singleton] at hlow hhigh
    rw [MethodParts.body, Token.row_ofParts _ (by omega), Token.row_ofParts _ (by omega)] at hrow
    omega
  refine ⟨Option.not_isSome_iff_eq_none.mp fun h => ?_, (hkept.mpr hfree).trans ?_,
    hfound hfree _ ?_⟩
  · obtain ⟨body, hbody, hsame⟩ := htaken.mp h
    obtain rfl := BodyAction.given.inj (List.mem_singleton.mp hbody)
    exact absurd hsame (by decide)
  · rw [hbodies]
    rfl
  · rw [hbodies]
    exact List.mem_append_left _ (List.mem_singleton.mpr rfl)

/-- The first body is given the second row, which the method behind it gets as well. -/
theorem given_body_dropped :
    let first := returning.body 2
    let b : AssemblyBuilder Empty := BodyAction.performAll [.given first] (new "App")
    let b' := BodyAction.perform b (.defined returningZero)
    b'.bodies = [first, returningZero.body 2] ∧ ([first].map MethodBody.token).Nodup ∧
      b.build.body first.token = .ok first ∧
      b'.build.body first.token = .ok (returningZero.body 2) ∧
      returningZero.body 2 ≠ first ∧ b'.build.methods.length = 1 := by
  refine ⟨rfl, List.nodup_singleton _, rfl, rfl, by decide, rfl⟩

end AssemblyBuilder

end ManagedCalls
