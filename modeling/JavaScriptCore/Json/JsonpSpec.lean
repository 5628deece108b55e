/-
# What `tryJSONPParse` takes over

The grammar of JSONP programs, in the difference form of `Grammar`, and the statement loop of
`tryJSONPParse` against it.

A JSONP program is a sequence of statements separated by `;`:

* `var` identifier `=` literal;
* path `=` literal, where a path is an identifier followed by `.identifier` and `[index]` steps;
* path `(` literal `)`, where the last step of the path is an identifier.

**The divergence.**  `lex` stores `TokSemi` for a semicolon but returns `TokAssign`, and the path
loop runs on the returned type.  So a semicolon after a path is taken for an equals sign: `a;1` is
accepted as `a=1`, and `execute` assigns to the global `a` instead of running two expression
statements.

The grammar therefore carries, for every statement, the character that stands at its assignment
sign (`Program signs text results`).  `tryJSONPParse` accepts exactly the programs whose signs are
`=` or `;` (`tryJSONPParse_sound`, `tryJSONPParse_complete`), the signs are determined by the text
(`Program.signs_unique`), and the JSONP programs are those whose signs are all `=`.

The values of the listed statements are what the text denotes if they are short (`StringLengths`),
and only then: a string of `2 ^ 31` characters is listed as the empty one.
-/
import JavaScriptCore.Json.Acceptance
import JavaScriptCore.Json.Jsonp

namespace JavaScriptCore.Json

open List LiteralParser

variable {ν : Type} {ops : TokenOps ν}

/-! ## 1. The grammar -/

/-- The `.identifier` and `[index]` steps of a path. -/
inductive PathSteps (ops : NumberOps ν) :
    List Nat → List JSONPPathEntry → List Nat → Prop where
  | nil {s} : PathSteps ops s [] s
  | dot {s s₁ s₂ k s₃ es r} : Ws s (0x2E :: s₁) → Ws s₁ s₂ → IsIdentifier s₂ k s₃ →
      PathSteps ops s₃ es r → PathSteps ops s (.Dot k :: es) r
  | lookup {s s₁ s₂ s₃ s₄ i es r} : Ws s (0x5B :: s₁) → Ws s₁ s₂ → Number s₂ s₃ →
      ops.toIndex (numberValue ops (textBetween s₂ s₃) s₃) = some i → Ws s₃ (0x5D :: s₄) →
      PathSteps ops s₄ es r → PathSteps ops s (.Lookup i :: es) r

/-- What a statement assigns to or calls. -/
inductive Target (ops : NumberOps ν) :
    List Nat → List JSONPPathEntry → List Nat → Prop where
  | declare {s s₁ s₂ k r} : IsIdentifier s varKeyword s₁ → Ws s₁ s₂ → IsIdentifier s₂ k r →
      isKeyword k = false → Target ops s [.Declare k] r
  | path {s k s₁ es r} : IsIdentifier s k s₁ → isKeyword k = false → PathSteps ops s₁ es r →
      Target ops s (.Dot k :: es) r

/-- A statement with the character `sign` at its assignment sign; a call has none and counts as
written with `=`. -/
inductive Statement (ops : TokenOps ν) : Nat → List Nat → JSONPData ν → List Nat → Prop where
  | assign {sign s path u u₁ u₂ v r} : Target ops.toNumberOps s path u → Ws u (sign :: u₁) →
    Ws u₁ u₂ → Value ops .JSONP u₂ v r → Statement ops sign s ⟨path, some v⟩ r
  | call {s init name u u₁ u₂ v u₃ r} : Target ops.toNumberOps s (init ++ [.Dot name]) u →
      Ws u (0x28 :: u₁) → Ws u₁ u₂ → Value ops .JSONP u₂ v u₃ → Ws u₃ (0x29 :: r) →
      Statement ops 0x3D s ⟨init ++ [.Call name], some v⟩ r

/-- Statements separated by `;`, with an optional `;` at the end. -/
inductive Program (ops : TokenOps ν) : List Nat → List Nat → List (JSONPData ν) → Prop where
  | last {sign t s d r} : Ws t s → Statement ops sign s d r → Ws r [] →
      Program ops [sign] t [d]
  | lastSemicolon {sign t s d r r'} : Ws t s → Statement ops sign s d r → Ws r (0x3B :: r') →
      Ws r' [] → Program ops [sign] t [d]
  | cons {sign signs t s d r r' ds} : Ws t s → Statement ops sign s d r → Ws r (0x3B :: r') →
      Program ops signs r' ds → Program ops (sign :: signs) t (d :: ds)

/-- A JSONP program and the statements it lists: every assignment is written with `=`. -/
def JSONPProgram (ops : TokenOps ν) (text : List Nat) (results : List (JSONPData ν)) : Prop :=
  ∃ signs, (∀ c ∈ signs, c = 0x3D) ∧ Program ops signs text results

/-- The shape of a JSONP program, except that in at least one assignment a `;` stands where the
`=` should. -/
def SemicolonProgram (ops : TokenOps ν) (text : List Nat) : Prop :=
  ∃ signs results, 0x3B ∈ signs ∧ (∀ c ∈ signs, c = 0x3D ∨ c = 0x3B) ∧
    Program ops signs text results

/-! ## 2. Tokens -/

variable {mode : ParserMode} {t : List Nat}

theorem lex_number_inv (h : (lex ops mode t).returned = .TokNumber) :
    ∃ s r, Ws t s ∧ Number s r ∧ lex ops mode t = numberTokenAt ops.toNumberOps s r := by
  obtain ⟨s, hws, htok⟩ := lex_tokenAt ops mode t
  generalize lex ops mode t = res at h htok
  cases htok with
  | number hn => exact ⟨_, _, hws, hn, rfl⟩
  | punctuator hc => cases h; cases punctuator_isPunctuation hc
  | word hw => cases h; cases literalWord_isWord hw
  | finish | identifier | dot | assign | semi | string | error => cases h

theorem lex_dot_inv (h : (lex ops mode t).returned = .TokDot) :
    ∃ r, Ws t (0x2E :: r) ∧ lex ops mode t = plainToken .TokDot [0x2E] r := by
  obtain ⟨s, hws, htok⟩ := lex_tokenAt ops mode t
  generalize lex ops mode t = res at h htok
  cases htok with
  | dot => exact ⟨_, hws, rfl⟩
  | punctuator hc => cases h; cases punctuator_isPunctuation hc
  | word hw => cases h; cases literalWord_isWord hw
  | finish | identifier | number | assign | semi | string | error => cases h

/-- What stands at an assignment sign for the lexer: `=`, or `;`. -/
def IsSign (c : Nat) : Prop := c = 0x3D ∨ c = 0x3B

/-- The character at the assignment sign, from the stored type of its token. -/
def signOf (type : TokenType) : Nat := if type = .TokSemi then 0x3B else 0x3D

/-- **The returned `TokAssign` does not tell `=` from `;`**; only the stored type does. -/
theorem lex_assign_inv (h : (lex ops mode t).returned = .TokAssign) :
    ∃ c r, IsSign c ∧ Ws t (c :: r) ∧ (lex ops mode t).ptr = r := by
  obtain ⟨s, hws, htok⟩ := lex_tokenAt ops mode t
  generalize lex ops mode t = res at h htok
  cases htok with
  | assign => exact ⟨_, _, .inl rfl, hws, rfl⟩
  | semi => exact ⟨_, _, .inr rfl, hws, rfl⟩
  | punctuator hc => cases h; cases punctuator_isPunctuation hc
  | word hw => cases h; cases literalWord_isWord hw
  | finish | identifier | number | dot | string | error => cases h

theorem lex_sign (ops : TokenOps ν) (mode : ParserMode) {r : List Nat} {c : Nat} (hc : IsSign c)
    (hws : Ws t (c :: r)) : (lex ops mode t).returned = .TokAssign ∧
    c = signOf (lex ops mode t).token.type ∧
      (lex ops mode t).token.type ≠ .TokLParen ∧ (lex ops mode t).ptr = r := by
  rcases hc with rfl | rfl
  · rw [lex_assign hws]
    exact ⟨rfl, rfl, nofun, rfl⟩
  · rw [lex_semicolon hws]
    exact ⟨rfl, rfl, nofun, rfl⟩

variable {p : LiteralParser ν}

theorem next_at (ops : TokenOps ν) (hptr : p.lexer.ptr = t) :
    (p.next ops).1 = (lex ops .JSONP t).returned ∧ At ops .JSONP (p.next ops).2 t := by
  subst hptr
  exact ⟨rfl, rfl, rfl⟩

/-- **Reading on** from a token whose lexing left the text `s`. -/
theorem At.next {x : LexResult ν} (hat : At ops .JSONP p t) (hlex : lex ops .JSONP t = x)
    (hptr : x.ptr = s) : (p.next ops).1 = (lex ops .JSONP s).returned ∧
    At ops .JSONP (p.next ops).2 s :=
  next_at ops (hat.ptr.trans (hlex ▸ hptr))

/-! ## 3. Paths -/

variable {path path' : List JSONPPathEntry}

theorem callLast_iff : callLast path = some path' ↔
      ∃ init name, path = init ++ [.Dot name] ∧ path' = init ++ [.Call name] := by
  unfold callLast
  constructor
  · intro h
    split at h
    · next name hlast =>
      obtain ⟨init, rfl⟩ := getLast?_eq_some_iff.mp hlast
      rw [dropLast_concat] at h
      exact ⟨init, name, rfl, (Option.some.inj h).symm⟩
    · cases h
  · rintro ⟨init, name, rfl, rfl⟩
    simp

variable {es : List JSONPPathEntry}

theorem PathSteps.length_le {r : List Nat} (h : PathSteps ops.toNumberOps t es r) :
    es.length + r.length ≤ t.length := by
  induction h with
  | nil => simp
  | dot h₁ h₂ h₃ _ ih =>
    have := h₁.length_le
    have := h₂.length_le
    have := h₃.length_lt
    simp only [length_cons] at *
    omega
  | lookup h₁ h₂ h₃ _ h₄ _ ih =>
    have := h₁.length_le
    have := h₂.length_le
    have := h₃.length_lt
    have := h₄.length_le
    simp only [length_cons] at *
    omega

/-- What ends a path: the lexer's `TokAssign`, or an opening parenthesis after a name. -/
inductive PathEnd (ops : TokenOps ν) (needsFullSourceInfo : Bool) (path : List JSONPPathEntry)
    (u : List Nat) : List JSONPPathEntry → Prop where
  | sign {c r} : IsSign c → Ws u (c :: r) → PathEnd ops needsFullSourceInfo path u path
  | paren {r path'} : needsFullSourceInfo = false → callLast path = some path' →
      Ws u (0x28 :: r) → PathEnd ops needsFullSourceInfo path u path'

variable {needs : Bool}

theorem readPath_sound : ∀ (fuel : Nat) {type : TokenType}
    {path path' : List JSONPPathEntry} {p p' : LiteralParser ν} {t : List Nat},
    At ops .JSONP p t → type = (lex ops .JSONP t).returned →
    readPath ops needs fuel type path p = some (path', p') →
    ∃ es u, PathSteps ops.toNumberOps t es u ∧ At ops .JSONP p' u ∧
    PathEnd ops needs (path ++ es) u path' := by
  intro fuel
  induction fuel with
  | zero => exact fun _ _ h => nomatch h
  | succ fuel ih =>
    intro type path path' p p' t hat htype h
    unfold readPath at h
    split at h
    · -- TokAssign
      cases h
      obtain ⟨c, r, hc, hws, -⟩ := lex_assign_inv htype.symm
      exact ⟨[], t, .nil, hat, by rw [append_nil]; exact .sign hc hws⟩
    · -- TokLBracket
      obtain ⟨s₁, hws₁, hlex₁⟩ := lex_punctuator_inv (c := 0x5B) rfl (.inl htype.symm)
      obtain ⟨hty₁, hat₁⟩ := hat.next (s := s₁) hlex₁ rfl
      simp only [hty₁] at h
      by_cases hnum : (lex ops .JSONP s₁).returned = .TokNumber
      · obtain ⟨s₂, s₃, hws₂, hn, hlex₂⟩ := lex_number_inv hnum
        have hnumber : (p.next ops).2.lexer.currentToken.number
            = some (numberValue ops.toNumberOps (textBetween s₂ s₃) s₃) := by
          rw [hat₁.token, hlex₂]
          rfl
        obtain ⟨hty₂, hat₂⟩ := hat₁.next (s := s₃) hlex₂ rfl
        rw [if_neg (not_not.mpr hnum), hnumber, Option.bind_some] at h
        split at h
        · cases h
        · next i hi =>
          split_ifs at h with hbr
          obtain ⟨s₄, hws₄, hlex₃⟩ := lex_punctuator_inv (c := 0x5D) rfl
            (.inl (hty₂.symm.trans (not_not.mp hbr)))
          obtain ⟨hty₃, hat₃⟩ := hat₂.next (s := s₄) hlex₃ rfl
          obtain ⟨es, u, hes, hat', hend⟩ := ih hat₃ hty₃ h
          rw [append_assoc] at hend
          exact ⟨_, u, .lookup hws₁ hws₂ hn hi hws₄ hes, hat', hend⟩
      · rw [if_pos hnum] at h
        cases h
    · -- TokDot
      obtain ⟨s₁, hws₁, hlex₁⟩ := lex_dot_inv htype.symm
      obtain ⟨hty₁, hat₁⟩ := hat.next (s := s₁) hlex₁ rfl
      simp only [hty₁] at h
      split_ifs at h with hid
      obtain ⟨s₂, k, s₃, hws₂, hk, hlex₂⟩ := lex_identifier_inv (.inl (not_not.mp hid))
      have htext : (p.next ops).2.lexer.currentToken.text = k := by
        rw [hat₁.token, hlex₂]
        rfl
      obtain ⟨hty₂, hat₂⟩ := hat₁.next (s := s₃) hlex₂ rfl
      rw [htext] at h
      obtain ⟨es, u, hes, hat', hend⟩ := ih hat₂ hty₂ h
      rw [append_assoc] at hend
      exact ⟨_, u, .dot hws₁ hws₂ hk hes, hat', hend⟩
    · -- TokLParen
      split_ifs at h with hneeds
      obtain ⟨s₁, hws₁, -⟩ := lex_punctuator_inv (c := 0x28) rfl (.inl htype.symm)
      obtain ⟨path'', hcall, heq⟩ := Option.map_eq_some_iff.mp h
      cases heq
      refine ⟨[], t, .nil, hat, ?_⟩
      rw [append_nil]
      exact .paren (by simpa using hneeds) hcall hws₁
    · cases h

variable {u : List Nat}

/-- The loop walks over the steps of a path, one turn a step. -/
theorem readPath_steps (needs : Bool) (h : PathSteps ops.toNumberOps t es u) :
    ∀ {p : LiteralParser ν} (path : List JSONPPathEntry),
    At ops .JSONP p t → ∃ p', At ops .JSONP p' u ∧ ∀ fuel,
      readPath ops needs (fuel + es.length) (lex ops .JSONP t).returned path p
        = readPath ops needs fuel (lex ops .JSONP u).returned (path ++ es) p' := by
  induction h with
  | nil => exact fun {p} path hat => ⟨p, hat, fun fuel => by rw [append_nil]; rfl⟩
  | @dot s s₁ s₂ k s₃ es r hws₁ hws₂ hk hes ih =>
    intro p path hat
    have hlex₁ : lex ops .JSONP s = _ := lex_dot hws₁
    have hlex₂ : lex ops .JSONP s₁ = _ := lex_identifier hws₂ hk
    obtain ⟨hty₁, hat₁⟩ := hat.next (s := s₁) hlex₁ rfl
    obtain ⟨hty₂, hat₂⟩ := hat₁.next (s := s₃) hlex₂ rfl
    obtain ⟨p', hat', hrun⟩ := ih (path ++ [.Dot k]) hat₂
    refine ⟨p', hat', fun fuel => ?_⟩
    have htext : (p.next ops).2.lexer.currentToken.text = k := by
      rw [hat₁.token, hlex₂]
      rfl
    rw [← hty₂] at hrun
    have := hrun fuel
    rw [append_assoc] at this
    rw [hlex₁, ← singleton_append, ← this, length_append, length_singleton, Nat.add_comm 1,
      ← Nat.add_assoc]
    have hid : (p.next ops).1 = .TokIdentifier := by rw [hty₁, hlex₂]; rfl
    simp only [readPath, plainToken, hid, htext, ne_eq, not_true_eq_false, if_false]
  | @lookup s s₁ s₂ s₃ s₄ i es r hws₁ hws₂ hn hi hws₄ hes ih =>
    intro p path hat
    have hlex₁ : lex ops .JSONP s = _ := lex_punctuator .TokLBracket hws₁ rfl
    have hlex₂ : lex ops .JSONP s₁ = _ :=
      lex_number hws₂ hn (hws₄.numberEnds_of_punctuator .TokRBracket rfl)
    have hlex₃ : lex ops .JSONP s₃ = _ := lex_punctuator .TokRBracket hws₄ rfl
    obtain ⟨hty₁, hat₁⟩ := hat.next (s := s₁) hlex₁ rfl
    obtain ⟨hty₂, hat₂⟩ := hat₁.next (s := s₃) hlex₂ rfl
    obtain ⟨hty₃, hat₃⟩ := hat₂.next (s := s₄) hlex₃ rfl
    obtain ⟨p', hat', hrun⟩ := ih (path ++ [.Lookup i]) hat₃
    refine ⟨p', hat', fun fuel => ?_⟩
    have hindex : (p.next ops).2.lexer.currentToken.number.bind ops.toIndex = some i := by
      rw [hat₁.token, hlex₂]
      exact hi
    rw [← hty₃] at hrun
    have := hrun fuel
    rw [append_assoc] at this
    rw [hlex₁, ← singleton_append, ← this, length_append, length_singleton, Nat.add_comm 1,
      ← Nat.add_assoc]
    have hnum : (p.next ops).1 = .TokNumber := by rw [hty₁, hlex₂]; rfl
    have hbr : ((p.next ops).2.next ops).1 = .TokRBracket := by rw [hty₂, hlex₃]; rfl
    simp only [readPath, plainToken, hnum, hindex, hbr, ne_eq, not_true_eq_false, if_false]

/-- The bound on the turns of the path loop suffices. -/
theorem PathSteps.length_le_ptr (h : PathSteps ops.toNumberOps t es u) :
    es.length ≤ (lex ops .JSONP t).ptr.length + 1 := by
  cases h with
  | nil => exact Nat.zero_le _
  | dot h₁ h₂ h₃ h₄ =>
    rw [lex_dot h₁]
    have := h₂.length_le
    have := h₃.length_lt
    have := h₄.length_le
    simp only [plainToken, length_cons]
    omega
  | lookup h₁ h₂ h₃ _ h₄ h₅ =>
    rw [lex_punctuator .TokLBracket h₁ rfl]
    have := h₂.length_le
    have := h₃.length_lt
    have := h₄.length_le
    have := h₅.length_le
    simp only [plainToken, length_cons] at *
    omega

theorem readPath_pathEnd (h : PathEnd ops needs path u path') (fuel : Nat) :
    readPath ops needs (fuel + 1) (lex ops .JSONP u).returned path p = some (path', p) := by
  cases h with
  | sign hc hws =>
    rw [(lex_sign ops .JSONP hc hws).1]
    rfl
  | paren hneeds hcall hws =>
    rw [lex_punctuator .TokLParen hws rfl]
    simp only [readPath, plainToken, hneeds, hcall]
    rfl

/-! ## 4. Targets -/

/-- `readTarget` on the first identifier of a statement. -/
theorem readTarget_sound {p' : LiteralParser ν} (hat : At ops .JSONP p t)
    (hid : (lex ops .JSONP t).token.type = .TokIdentifier)
    (h : readTarget ops needs p = some (path', p')) :
    ∃ s path u, Ws t s ∧ Target ops.toNumberOps s path u ∧ At ops .JSONP p' u ∧
    PathEnd ops needs path u path' := by
  obtain ⟨s, k, r, hws, hk, hlex⟩ := lex_identifier_inv (.inr hid)
  have hname : p.lexer.currentToken.text = k := by rw [hat.token, hlex]; rfl
  obtain ⟨hty₁, hat₁⟩ := hat.next (s := r) hlex rfl
  simp only [readTarget, hname] at h
  split_ifs at h with hvar hid₁ hkey₁ hassign hkey
  · -- var
    subst hvar
    obtain ⟨s₂, k₂, u, hws₂, hk₂, hlex₂⟩ :=
      lex_identifier_inv (.inl (hty₁.symm.trans (not_not.mp hid₁)))
    have hname₂ : (p.next ops).2.lexer.currentToken.text = k₂ := by rw [hat₁.token, hlex₂]; rfl
    obtain ⟨hty₂, hat₂⟩ := hat₁.next (s := u) hlex₂ rfl
    obtain ⟨c, r', hc, hws', -⟩ := lex_assign_inv (hty₂.symm.trans (not_not.mp hassign))
    rw [hname₂] at h hkey₁
    cases h
    exact ⟨s, _, u, hws, .declare hk hws₂ hk₂ (by simpa using hkey₁), hat₂, .sign hc hws'⟩
  · obtain ⟨es, u, hes, hat', hend⟩ := readPath_sound _ hat₁ hty₁ h
    exact ⟨s, _, u, hws, .path hk (by simpa using hkey) hes, hat', hend⟩

variable {s : List Nat}

theorem readTarget_complete (needs : Bool) (hat : At ops .JSONP p t)
    (hws : Ws t s) (h : Target ops.toNumberOps s path u) (hend : PathEnd ops needs path u path') :
    ∃ p', At ops .JSONP p' u ∧ readTarget ops needs p = some (path', p') := by
  cases h with
  | @declare s₁ s₂ k _ hvar hws₂ hk hkey =>
    have hlex : lex ops .JSONP t = _ := lex_identifier hws hvar
    have hlex₂ : lex ops .JSONP s₁ = _ := lex_identifier hws₂ hk
    obtain ⟨hty₁, hat₁⟩ := hat.next (s := s₁) hlex rfl
    obtain ⟨hty₂, hat₂⟩ := hat₁.next (s := u) hlex₂ rfl
    have hname : p.lexer.currentToken.text = varKeyword := by rw [hat.token, hlex]; rfl
    have hname₂ : (p.next ops).2.lexer.currentToken.text = k := by rw [hat₁.token, hlex₂]; rfl
    have hid : (p.next ops).1 = .TokIdentifier := by rw [hty₁, hlex₂]; rfl
    refine ⟨_, hat₂, ?_⟩
    -- a declaration cannot be called, so the sign is all that is left
    cases hend with
    | sign hc hws' =>
      have hassign : ((p.next ops).2.next ops).1 = .TokAssign := by
        rw [hty₂, (lex_sign ops .JSONP hc hws').1]
      simp [readTarget, hname, hid, hname₂, hkey, hassign]
    | paren _ hcall _ =>
      obtain ⟨init, name, heq, -⟩ := callLast_iff.mp hcall
      rcases init with _ | ⟨_, _⟩ <;> simp at heq
  | @path k s₁ es _ hk hkey hes =>
    have hlex : lex ops .JSONP t = _ := lex_identifier hws hk
    obtain ⟨hty₁, hat₁⟩ := hat.next (s := s₁) hlex rfl
    have hname : p.lexer.currentToken.text = k := by rw [hat.token, hlex]; rfl
    have hvar : k ≠ varKeyword := by
      rintro rfl
      exact absurd hkey (by decide)
    obtain ⟨p', hat', hrun⟩ := readPath_steps needs hes [.Dot k] hat₁
    refine ⟨p', hat', ?_⟩
    have hlen := hes.length_le_ptr
    rw [← hat₁.ptr] at hlen
    have hfuel : (p.next ops).2.lexer.ptr.length + 2
        = ((p.next ops).2.lexer.ptr.length + 1 - es.length + 1) + es.length := by omega
    simp only [readTarget, hname, hvar, if_false, hkey]
    rw [if_neg Bool.false_ne_true, hfuel, hty₁, hrun]
    exact readPath_pathEnd hend _

/-! ## 5. Statements -/

theorem PathSteps.call_notMem (h : PathSteps ops.toNumberOps t es u) (name : List Nat) :
    .Call name ∉ es := by
  induction h with
  | nil => exact not_mem_nil
  | dot _ _ _ _ ih | lookup _ _ _ _ _ _ ih => simpa using ih

theorem isCall_concat (init : List JSONPPathEntry) (e : JSONPPathEntry) :
    isCall (init ++ [e]) = true ↔ ∃ name, e = .Call name := by
  unfold isCall
  rw [getLast?_concat]
  cases e <;> simp

theorem Target.isCall_eq_false (h : Target ops.toNumberOps s path u) : isCall path = false := by
  cases h with
  | declare => rfl
  | @path k s₁ es _ _ _ hes =>
    rw [← Bool.not_eq_true]
    intro hcall
    obtain ⟨init, e, heq⟩ : ∃ init e, JSONPPathEntry.Dot k :: es = init ++ [e] :=
      ⟨_, _, (dropLast_append_getLast (cons_ne_nil _ _)).symm⟩
    rw [heq] at hcall
    obtain ⟨name, rfl⟩ := (isCall_concat init e).mp hcall
    have hmem : JSONPPathEntry.Call name ∈ JSONPPathEntry.Dot k :: es := by
      rw [heq]
      exact mem_concat_self
    exact hes.call_notMem name (by simpa using hmem)

/-- The parser after the optional closing parenthesis of a statement. -/
def afterStatement (ops : TokenOps ν) (path : List JSONPPathEntry) (p : LiteralParser ν) :
    LiteralParser ν :=
  if isCall path then p.advance ops .JSONP else p

variable {v : JSValue ν}

theorem statement_sound {p₁ p₂ : LiteralParser ν} (hat : At ops .JSONP p t)
    (hid : (lex ops .JSONP t).token.type = .TokIdentifier)
    (htarget : readTarget ops needs p = some (path, p₁))
    (hvalue : (p₁.advance ops .JSONP).parse ops .JSONP .StartParseExpression = (some v, p₂))
    (hparen : isCall path = true → p₂.tokenType = .TokRParen) :
    ∃ sign s r, IsSign sign ∧ Ws t s ∧ Statement ops sign s ⟨path, some v⟩ r ∧
      At ops .JSONP (afterStatement ops path p₂) r := by
  obtain ⟨s, path₀, u, hws, htgt, hat₁, hend⟩ := readTarget_sound hat hid htarget
  have hcases := parse_cases (hat₁.advance rfl)
  rw [hvalue] at hcases
  obtain ⟨p', h⟩ | ⟨s', v', r, p', hws', hval, hat₂, h⟩ := hcases
  · cases h
  · cases h
    cases hend with
    | sign hc hwsc =>
      obtain ⟨-, -, -, hptr⟩ := lex_sign ops .JSONP hc hwsc
      rw [hptr] at hws'
      refine ⟨_, s, r, hc, hws, .assign htgt hwsc hws' hval, ?_⟩
      rw [afterStatement, htgt.isCall_eq_false]
      exact hat₂
    | paren _ hcall hwsc =>
      rw [lex_punctuator .TokLParen hwsc rfl] at hws'
      obtain ⟨init, name, rfl, rfl⟩ := callLast_iff.mp hcall
      have hiscall : isCall (init ++ [JSONPPathEntry.Call name]) = true :=
        (isCall_concat _ _).mpr ⟨_, rfl⟩
      obtain ⟨r', hwsr, hlex⟩ := lex_punctuator_inv (c := 0x29) rfl
        (.inr (hat₂.tokenType.symm.trans (hparen hiscall)))
      refine ⟨_, s, r', .inl rfl, hws, .call htgt hwsc hws' hval hwsr, ?_⟩
      rw [afterStatement, hiscall]
      exact hat₂.advance hlex

variable {sign : Nat} {d : JSONPData ν}

/-- **A statement is read as the grammar says**, and its sign is the one the token at the end of
its target stores. -/
theorem statement_complete {r : List Nat} (hat : At ops .JSONP p t) (hws : Ws t s)
    (hsign : IsSign sign) (h : Statement ops sign s d r) (hr : NumberEnds r) :
    ∃ p₁ p₂ v, readTarget ops false p = some (d.path, p₁) ∧
      (p₁.advance ops .JSONP).parse ops .JSONP .StartParseExpression = (some v, p₂) ∧
      d.value = some v ∧ (isCall d.path = true → p₂.tokenType = .TokRParen) ∧
      At ops .JSONP (afterStatement ops d.path p₂) r ∧ sign = signOf p₁.tokenType := by
  cases h with
  | @assign _ _ path u u₁ u₂ v _ htgt hwsu hwsu₁ hval =>
    obtain ⟨p₁, hat₁, htarget⟩ :=
      readTarget_complete false hat hws htgt (.sign hsign hwsu)
    obtain ⟨-, hsignOf, -, hptr⟩ := lex_sign ops .JSONP hsign hwsu
    have hadv := hat₁.advance rfl
    rw [hptr] at hadv
    obtain ⟨p₂, hat₂, hvalue⟩ := parse_value hadv hwsu₁ hval hr
    refine ⟨p₁, p₂, v, htarget, hvalue, rfl, ?_, ?_, hat₁.tokenType ▸ hsignOf⟩
    · rw [htgt.isCall_eq_false]
      exact nofun
    · rw [afterStatement, htgt.isCall_eq_false]
      exact hat₂
  | @call _ init name u u₁ u₂ v u₃ _ htgt hwsu hwsu₁ hval hwsr =>
    obtain ⟨p₁, hat₁, htarget⟩ := readTarget_complete false hat hws htgt
      (.paren rfl (callLast_iff.mpr ⟨init, name, rfl, rfl⟩) hwsu)
    have hlex : lex ops .JSONP u = _ := lex_punctuator .TokLParen hwsu rfl
    have hlexr : lex ops .JSONP u₃ = _ := lex_punctuator .TokRParen hwsr rfl
    obtain ⟨p₂, hat₂, hvalue⟩ := parse_value (hat₁.advance hlex) hwsu₁ hval
      (hwsr.numberEnds_of_punctuator .TokRParen rfl)
    have hiscall : isCall (init ++ [JSONPPathEntry.Call name]) = true :=
      (isCall_concat _ _).mpr ⟨_, rfl⟩
    refine ⟨p₁, p₂, v, htarget, hvalue, rfl, ?_, ?_, ?_⟩
    · intro _
      rw [hat₂.tokenType, hlexr]
      rfl
    · rw [afterStatement, hiscall]
      exact hat₂.advance hlexr
    · rw [hat₁.tokenType, hlex]
      rfl

/-! ## 6. Programs -/

variable {results : List (JSONPData ν)}

/-- The loop, with what it does after a statement spelled out. -/
theorem jsonpLoop_succ {fuel : Nat} {p₁ p₂ : LiteralParser ν}
    (htarget : readTarget ops needs p = some (path, p₁))
    (hvalue : (p₁.advance ops .JSONP).parse ops .JSONP .StartParseExpression = (some v, p₂))
    (hparen : isCall path = true → p₂.tokenType = .TokRParen) :
    jsonpLoop ops needs (fuel + 1) results p =
      let p := afterStatement ops path p₂
      let results := results ++ [⟨path, some v⟩]
      if p.tokenType ≠ .TokSemi then (p.tokenType == .TokEnd, results)
      else
        let p := p.advance ops .JSONP
        if p.tokenType = .TokIdentifier then jsonpLoop ops needs fuel results p
        else (p.tokenType == .TokEnd, results) := by
  have hcond : ¬ (isCall path = true ∧ p₂.tokenType ≠ .TokRParen) :=
    fun h => h.2 (hparen h.1)
  simp only [jsonpLoop, htarget, hvalue, hcond, if_false]
  rfl

/-- A turn that does not end in failure has read a statement. -/
theorem jsonpLoop_true {fuel : Nat} {results' : List (JSONPData ν)}
    (h : jsonpLoop ops needs (fuel + 1) results p = (true, results')) :
    ∃ path p₁ v p₂, readTarget ops needs p = some (path, p₁) ∧
      (p₁.advance ops .JSONP).parse ops .JSONP .StartParseExpression = (some v, p₂) ∧
      (isCall path = true → p₂.tokenType = .TokRParen) := by
  unfold jsonpLoop at h
  split at h
  · cases h
  · next path p₁ htarget =>
    split at h
    · cases h
    · next v p₂ hvalue =>
      by_cases hcond : isCall path = true ∧ p₂.tokenType ≠ .TokRParen
      · rw [if_pos hcond] at h
        cases h
      · exact ⟨path, p₁, v, p₂, htarget, hvalue, fun hc => not_not.mp fun hne => hcond ⟨hc, hne⟩⟩

theorem At.semicolon {r r' : List Nat} (hat : At ops .JSONP p r) (hsemi : Ws r (0x3B :: r')) :
    p.tokenType = .TokSemi ∧ At ops .JSONP (p.advance ops .JSONP) r' := by
  refine ⟨?_, hat.advance (lex_semicolon hsemi)⟩
  rw [hat.tokenType, lex_semicolon hsemi]
  rfl

theorem jsonpLoop_sound : ∀ (fuel : Nat) {results results' : List (JSONPData ν)}
    {p : LiteralParser ν} {t : List Nat}, At ops .JSONP p t →
    (lex ops .JSONP t).token.type = .TokIdentifier →
    jsonpLoop ops needs fuel results p = (true, results') →
    ∃ signs ds, (∀ c ∈ signs, IsSign c) ∧ Program ops signs t ds ∧ results' = results ++ ds := by
  intro fuel
  induction fuel with
  | zero => exact fun _ _ h => nomatch h
  | succ fuel ih =>
    intro results results' p t hat hid h
    obtain ⟨path, p₁, v, p₂, htarget, hvalue, hparen⟩ := jsonpLoop_true h
    rw [jsonpLoop_succ htarget hvalue hparen] at h
    obtain ⟨sign, s, r, hsign, hws, hst, hat'⟩ := statement_sound hat hid htarget hvalue hparen
    have hone : ∀ c ∈ [sign], IsSign c := by simpa using hsign
    simp only at h
    split_ifs at h with hsemi hident
    · obtain ⟨hend, rfl⟩ := Prod.mk.inj h
      exact ⟨_, _, hone, .last hws hst (lex_end_inv (hat'.tokenType.symm.trans (eq_of_beq hend))),
        rfl⟩
    · obtain ⟨r', hwsr⟩ := lex_semicolon_inv (hat'.tokenType.symm.trans (not_not.mp hsemi))
      obtain ⟨-, hadv⟩ := hat'.semicolon hwsr
      obtain ⟨signs, ds, hsigns, hprog, rfl⟩ := ih hadv (hadv.tokenType.symm.trans hident) h
      refine ⟨sign :: signs, _ :: ds, ?_, .cons hws hst hwsr hprog, by simp⟩
      simpa using ⟨hsign, hsigns⟩
    · obtain ⟨r', hwsr⟩ := lex_semicolon_inv (hat'.tokenType.symm.trans (not_not.mp hsemi))
      obtain ⟨-, hadv⟩ := hat'.semicolon hwsr
      obtain ⟨hend, rfl⟩ := Prod.mk.inj h
      exact ⟨_, _, hone, .lastSemicolon hws hst hwsr
        (lex_end_inv (hadv.tokenType.symm.trans (eq_of_beq hend))), rfl⟩

theorem Statement.identifier {r : List Nat} (h : Statement ops sign s d r) (hws : Ws t s) :
    (lex ops .JSONP t).returned = .TokIdentifier ∧ (lex ops .JSONP t).token.type =
      .TokIdentifier := by
  have main : ∀ {path u}, Target ops.toNumberOps s path u → ∃ k r, IsIdentifier s k r := by
    intro path u htgt
    cases htgt with
    | declare h _ _ _ | path h _ _ => exact ⟨_, _, h⟩
  obtain ⟨k, r', hk⟩ : ∃ k r, IsIdentifier s k r := by
    cases h with
    | assign htgt _ _ _ | call htgt _ _ _ _ => exact main htgt
  rw [lex_identifier hws hk]
  exact ⟨rfl, rfl⟩

variable {signs : List Nat} {ds : List (JSONPData ν)}

/-- What stands behind the first statement of a program. -/
inductive Behind (ops : TokenOps ν) : List Nat → List Nat → List (JSONPData ν) → Prop where
  | finish {r} : Ws r [] → Behind ops [] r []
  | semicolon {r r'} : Ws r (0x3B :: r') → Ws r' [] → Behind ops [] r []
  | next {signs r r' ds} : Ws r (0x3B :: r') → Program ops signs r' ds → Behind ops signs r ds

theorem Program.first (h : Program ops signs t ds) :
    ∃ sign signs' s d ds' r, signs = sign :: signs' ∧
    ds = d :: ds' ∧ Ws t s ∧ Statement ops sign s d r ∧ NumberEnds r ∧ Behind ops signs' r ds' := by
  cases h with
  | last hws hst hend =>
    exact ⟨_, _, _, _, _, _, rfl, rfl, hws, hst, hend.numberEnds_nil, .finish hend⟩
  | lastSemicolon hws hst hsemi hend =>
    exact ⟨_, _, _, _, _, _, rfl, rfl, hws, hst, hsemi.numberEnds_semicolon, .semicolon hsemi hend⟩
  | cons hws hst hsemi hprog =>
    exact ⟨_, _, _, _, _, _, rfl, rfl, hws, hst, hsemi.numberEnds_semicolon, .next hsemi hprog⟩

theorem Program.identifier (h : Program ops signs t ds) :
    (lex ops .JSONP t).returned = .TokIdentifier ∧
      (lex ops .JSONP t).token.type = .TokIdentifier := by
  obtain ⟨_, _, _, _, _, _, -, -, hws, hst, -⟩ := h.first
  exact hst.identifier hws

theorem Value.length_le {r : List Nat} (h : Value ops mode s v r) (hr : NumberEnds r) :
    r.length ≤ s.length := by
  obtain ⟨k, m', -, -, hle⟩ := value_complete h (t := s)
    (m := ⟨(ofText s).advance ops mode, [], none, [], []⟩) .nil hr (at_advance rfl)
  omega

theorem Target.length_le (h : Target ops.toNumberOps s path u) : u.length ≤ s.length := by
  cases h with
  | declare h₁ h₂ h₃ _ =>
    exact h₃.length_lt.le.trans (h₂.length_le.trans h₁.length_lt.le)
  | path h₁ _ h₂ =>
    have := h₁.length_lt
    have := h₂.length_le
    omega

theorem Statement.length_le {r : List Nat} (h : Statement ops sign s d r) (hr : NumberEnds r) :
    r.length ≤ s.length := by
  cases h with
  | assign h₁ h₂ h₃ h₄ =>
    have := h₁.length_le
    have := h₂.length_le
    have := h₃.length_le
    have := h₄.length_le hr
    simp only [length_cons] at *
    omega
  | call h₁ h₂ h₃ h₄ h₅ =>
    have := h₁.length_le
    have := h₂.length_le
    have := h₃.length_le
    have := h₄.length_le (h₅.numberEnds_of_punctuator .TokRParen rfl)
    have := h₅.length_le
    simp only [length_cons] at *
    omega

/-- The signs at the assignments, as the loop of `tryJSONPParse` comes by them. -/
def signsRead (ops : TokenOps ν) : Nat → LiteralParser ν → List Nat
  | 0, _ => []
  | fuel + 1, p =>
    match readTarget ops false p with
    | none => []
    | some (path, p₁) =>
      let p :=
        afterStatement ops path ((p₁.advance ops .JSONP).parse ops .JSONP .StartParseExpression).2
      signOf p₁.tokenType ::
        if p.tokenType = .TokSemi ∧ (p.advance ops .JSONP).tokenType = .TokIdentifier then
          signsRead ops fuel (p.advance ops .JSONP)
        else []

theorem jsonpLoop_complete (results : List (JSONPData ν)) (h : Program ops signs t ds) {fuel : Nat}
    (hsigns : ∀ c ∈ signs, IsSign c) (hat : At ops .JSONP p t) (hfuel : ds.length ≤ fuel) :
    jsonpLoop ops false fuel results p = (true, results ++ ds) ∧ signsRead ops fuel p = signs := by
  induction fuel generalizing results p t signs ds with
  | zero =>
    obtain ⟨_, _, _, _, _, _, -, rfl, -⟩ := h.first
    cases hfuel
  | succ fuel ih =>
    obtain ⟨sign, signs, s, d, ds, r, rfl, rfl, hws, hst, hnumber, hbehind⟩ := h.first
    obtain ⟨p₁, p₂, v, htarget, hvalue, hdv, hparen, hat', hsign⟩ :=
      statement_complete hat hws (hsigns sign (by simp)) hst hnumber
    rw [jsonpLoop_succ htarget hvalue hparen, signsRead, htarget]
    simp only [hvalue, ← hdv, ← hsign]
    cases hbehind with
    | finish hend =>
      have hty : (afterStatement ops d.path p₂).tokenType = .TokEnd := by
        rw [hat'.tokenType, lex_end hend]
        rfl
      simp [hty]
    | semicolon hsemi hend =>
      obtain ⟨hty, hadv⟩ := hat'.semicolon hsemi
      have hty' : ((afterStatement ops d.path p₂).advance ops .JSONP).tokenType = .TokEnd := by
        rw [hadv.tokenType, lex_end hend]
        rfl
      simp [hty, hty']
    | next hsemi hprog =>
      obtain ⟨hty, hadv⟩ := hat'.semicolon hsemi
      have hty' : ((afterStatement ops d.path p₂).advance ops .JSONP).tokenType
          = .TokIdentifier := hadv.tokenType.trans hprog.identifier.2
      obtain ⟨hloop, hread⟩ :=
        ih (results ++ [d]) hprog (fun c hc => hsigns c (mem_cons_of_mem _ hc))
        hadv (by simpa using hfuel)
      simp [hty, hty', hloop, hread]

theorem Program.length_le (h : Program ops signs t ds) : ds.length ≤ t.length + 1 := by
  induction h with
  | last | lastSemicolon => simp
  | cons hws hst hsemi _ ih =>
    have h₁ := hws.length_le
    have h₂ := hst.length_le hsemi.numberEnds_semicolon
    have h₃ := hsemi.length_le
    simp only [length_cons] at *
    omega

/-- **The signs are determined by the text**: the parser, which has only one run, comes by them. -/
theorem Program.signs_unique {signs₁ signs₂ : List Nat} {ds₁ ds₂ : List (JSONPData ν)}
    (h₁ : Program ops signs₁ t ds₁) (h₂ : Program ops signs₂ t ds₂) (hs₁ : ∀ c ∈ signs₁, IsSign c)
    (hs₂ : ∀ c ∈ signs₂, IsSign c) : signs₁ = signs₂ := by
  have hat : At ops .JSONP ((ofText t).advance ops .JSONP) t := at_advance rfl
  obtain ⟨-, hread₁⟩ := jsonpLoop_complete [] h₁ hs₁ hat h₁.length_le
  obtain ⟨-, hread₂⟩ := jsonpLoop_complete [] h₂ hs₂ hat h₂.length_le
  exact hread₁.symm.trans hread₂

variable {text : List Nat}

/-- `tryJSONPParse` accepts programs only, and lists their statements. -/
theorem tryJSONPParse_sound (h : tryJSONPParse ops needs text = (true, results)) :
    ∃ signs, (∀ c ∈ signs, IsSign c) ∧ Program ops signs text results := by
  unfold tryJSONPParse at h
  obtain ⟨hty, hat⟩ := next_at ops (p := ofText text) (t := text) rfl
  simp only [hty] at h
  by_cases hid : (lex ops .JSONP text).returned = .TokIdentifier
  · rw [if_neg (not_not.mpr hid)] at h
    obtain ⟨s, k, r, hws, hk, hlex⟩ := lex_identifier_inv (.inl hid)
    obtain ⟨signs, ds, hsigns, hprog, rfl⟩ := jsonpLoop_sound _ hat (by rw [hlex]; rfl) h
    exact ⟨signs, hsigns, hprog⟩
  · rw [if_pos hid] at h
    cases h

/-- `tryJSONPParse` accepts every program whose signs are `=` or `;`. -/
theorem tryJSONPParse_complete (hsigns : ∀ c ∈ signs, IsSign c)
    (h : Program ops signs text results) : tryJSONPParse ops false text = (true, results) := by
  obtain ⟨hty, hat⟩ := next_at ops (p := ofText text) (t := text) rfl
  have hid : ((ofText text).next ops).1 = .TokIdentifier :=
    hty.trans h.identifier.1
  simp only [tryJSONPParse, hid, ne_eq, not_true_eq_false, if_false]
  exact (jsonpLoop_complete [] h hsigns hat h.length_le).1

/-- A program with a `;` for a `=` is not a JSONP program, whatever it is read as. -/
theorem SemicolonProgram.not_jsonp (h : SemicolonProgram ops text)
    (results : List (JSONPData ν)) : ¬ JSONPProgram ops text results := by
  obtain ⟨signs, results', hmem, hsigns, hprog⟩ := h
  rintro ⟨signs', hsigns', hprog'⟩
  have heq := hprog.signs_unique hprog' hsigns fun c hc => .inl (hsigns' c hc)
  rw [heq] at hmem
  exact absurd (hsigns' _ hmem) (by decide)

/-- A text lists one sequence of statements. -/
theorem Program.results_unique {signs₁ signs₂ : List Nat} {ds₁ ds₂ : List (JSONPData ν)}
    (h₁ : Program ops signs₁ t ds₁) (h₂ : Program ops signs₂ t ds₂) (hs₁ : ∀ c ∈ signs₁, IsSign c)
    (hs₂ : ∀ c ∈ signs₂, IsSign c) : ds₁ = ds₂ := by
  have hresults := (tryJSONPParse_complete hs₁ h₁).symm.trans (tryJSONPParse_complete hs₂ h₂)
  exact (Prod.mk.inj hresults).2

/-! ## 7. The lengths of strings

The names of a path are taken from the text of their tokens, the strings of a value from the cut
ones. -/

def JSONPData.Short (d : JSONPData ν) : Prop := ∀ v ∈ d.value, v.Short

theorem Statement.reread {r : List Nat} (h : Statement ops sign s d r) (ops' : TokenOps ν)
    (hnum : ops'.toNumberOps = ops.toNumberOps) : ∃ d', Statement ops' sign s d' r ∧
      (AgreesOnShort ops ops' → d.Short → d' = d) := by
  cases h with
  | assign htgt hwsu hwsu₁ hval =>
    obtain ⟨w, hw, hvw⟩ := hval.reread ops'
    refine ⟨_, .assign (hnum ▸ htgt) hwsu hwsu₁ hw, fun hagrees hshort => ?_⟩
    rw [hvw hagrees (hshort _ rfl)]
  | call htgt hwsu hwsu₁ hval hwsr =>
    obtain ⟨w, hw, hvw⟩ := hval.reread ops'
    refine ⟨_, .call (hnum ▸ htgt) hwsu hwsu₁ hw hwsr, fun hagrees hshort => ?_⟩
    rw [hvw hagrees (hshort _ rfl)]

/-- **Two lexers take the same texts for programs**, and list the short values alike if they agree
on short strings. -/
theorem Program.reread (h : Program ops signs t ds) (ops' : TokenOps ν)
    (hnum : ops'.toNumberOps = ops.toNumberOps) : ∃ ds', Program ops' signs t ds' ∧
      (AgreesOnShort ops ops' → (∀ d ∈ ds, d.Short) → ds' = ds) := by
  induction h with
  | last hws hst hend =>
    obtain ⟨d', hst', hd⟩ := hst.reread ops' hnum
    refine ⟨[d'], .last hws hst' hend, fun hagrees hshort => ?_⟩
    rw [hd hagrees (hshort _ mem_cons_self)]
  | lastSemicolon hws hst hsemi hend =>
    obtain ⟨d', hst', hd⟩ := hst.reread ops' hnum
    refine ⟨[d'], .lastSemicolon hws hst' hsemi hend, fun hagrees hshort => ?_⟩
    rw [hd hagrees (hshort _ mem_cons_self)]
  | cons hws hst hsemi _ ih =>
    obtain ⟨d', hst', hd⟩ := hst.reread ops' hnum
    obtain ⟨ds', hprog', hds⟩ := ih
    refine ⟨d' :: ds', .cons hws hst' hsemi hprog', fun hagrees hshort => ?_⟩
    rw [hd hagrees (hshort _ mem_cons_self), hds hagrees fun d h => hshort d (mem_cons_of_mem _ h)]

theorem Statement.short {r : List Nat} (h : Statement ops sign s d r)
    (hstring : ∀ s, ShortString (ops.string s)) : d.Short := by
  cases h with
  | assign _ _ _ hval | call _ _ _ hval _ =>
    rintro _ ⟨⟩
    exact hval.short hstring

theorem Program.short (h : Program ops signs t ds) (hstring : ∀ s, ShortString (ops.string s)) :
    ∀ d ∈ ds, d.Short := by
  induction h with
  | last _ hst _ | lastSemicolon _ hst _ _ => exact forall_mem_singleton.mpr (hst.short hstring)
  | cons _ hst _ _ ih => exact forall_mem_cons.mpr ⟨hst.short hstring, ih⟩

/-! ## 8. `tryJSONPParse` and `execute` -/

section Lexed

variable {ops : NumberOps ν}

/-- Without such a `;`, and with short values, what is accepted is a JSONP program with the listed
statements. -/
theorem jsonp_of_short (hsemi : ¬ SemicolonProgram ops.denoted text)
    (hshort : ∀ results, JSONPProgram ops.denoted text results → ∀ d ∈ results, d.Short)
    (h : tryJSONPParse ops.lexed needs text = (true, results)) :
    JSONPProgram ops.denoted text results := by
  obtain ⟨signs, hsigns, hprog⟩ := tryJSONPParse_sound h
  obtain ⟨ds, hdenoted, -⟩ := hprog.reread ops.denoted rfl
  have hjsonp : JSONPProgram ops.denoted text ds := by
    refine ⟨signs, fun c hc => ?_, hdenoted⟩
    rcases hsigns c hc with rfl | rfl
    · rfl
    · exact absurd ⟨signs, ds, hc, hsigns, hdenoted⟩ hsemi
  -- the statements that the text denotes are read back as themselves, and there is one reading
  obtain ⟨ds', hlexed, hds⟩ := hdenoted.reread ops.lexed rfl
  rw [hprog.results_unique hlexed hsigns hsigns, hds agreesOnShort_lexed (hshort ds hjsonp)]
  exact hjsonp

/-- A listed JSONP program has short values only. -/
theorem short_of_jsonp (hparse : ∀ results, tryJSONPParse ops.lexed false text = (true, results) →
      JSONPProgram ops.denoted text results) (h : JSONPProgram ops.denoted text results) :
    ∀ d ∈ results, d.Short := by
  obtain ⟨signs, hsigns, hprog⟩ := h
  have hsigns' : ∀ c ∈ signs, IsSign c := fun c hc => .inl (hsigns c hc)
  obtain ⟨ds, hlexed, -⟩ := hprog.reread ops.lexed rfl
  obtain ⟨signs₂, hsigns₂, hprog₂⟩ := hparse ds (tryJSONPParse_complete hsigns' hlexed)
  rw [hprog.results_unique hprog₂ hsigns' fun c hc => .inl (hsigns₂ c hc)]
  exact hlexed.short shortString_stringOfToken

end Lexed

/-- **`tryJSONPParse` takes over JSONP programs only and lists what they denote, and `execute`
compiles every other program, on exactly the texts in which no `;` stands where the `=` of an
assignment should, and in which no string or key of a JSONP program's values has `2 ^ 31`
characters.** -/
theorem tryJSONPParse_jsonp_iff (ops : NumberOps ν) (text : List Nat) :
    ((∀ results, tryJSONPParse ops.lexed false text = (true, results) →
        JSONPProgram ops.denoted text results) ∧
      ∀ (V σ : Type) (h : Host ν V σ) (s : σ),
        (¬ ∃ results, JSONPProgram ops.denoted text results) →
        execute ops h text s = h.compileAndRun text s) ↔
    ¬ SemicolonProgram ops.denoted text ∧
      ∀ results, JSONPProgram ops.denoted text results → ∀ d ∈ results, d.Short := by
  constructor
  · rintro ⟨hparse, -⟩
    refine ⟨fun hsemi => ?_, fun results => short_of_jsonp hparse⟩
    obtain ⟨signs, results, -, hsigns, hprog⟩ := id hsemi
    obtain ⟨ds, hlexed, -⟩ := hprog.reread ops.lexed rfl
    exact hsemi.not_jsonp ds (hparse ds (tryJSONPParse_complete hsigns hlexed))
  · rintro ⟨hsemi, hshort⟩
    refine ⟨fun results => jsonp_of_short hsemi hshort, fun V σ h s hnone => ?_⟩
    unfold execute
    split
    · next results hres => exact absurd ⟨results, jsonp_of_short hsemi hshort hres⟩ hnone
    · rfl

/-- `a;1` is accepted as the assignment of `1` to `a`, and it is not a JSONP program. -/
theorem tryJSONPParse_semicolon :
    tryJSONPParse intOps.lexed false [0x61, 0x3B, 0x31]
        = (true, [⟨[.Dot [0x61]], some (.number 1)⟩]) ∧
      ¬ ∃ results, JSONPProgram intOps.denoted [0x61, 0x3B, 0x31] results := by
  refine ⟨rfl, fun ⟨results, h⟩ => SemicolonProgram.not_jsonp ?_ results h⟩
  have hident : IsIdentifier [0x61, 0x3B, 0x31] [0x61] [0x3B, 0x31] := by
    refine ⟨rfl, ⟨0x61, [], rfl, by decide⟩, by decide, ?_, by decide⟩
    rintro c t ⟨⟩
    decide
  have hone : Number [0x31] [] := .plain ⟨.digit (by decide) (by decide), .none, .none⟩
  have hstatement : Statement intOps.denoted 0x3B [0x61, 0x3B, 0x31] _ _ :=
    .assign (.path hident (by decide) .nil) .nil .nil (.number hone)
  exact ⟨[0x3B], _, by simp, by simp, .last .nil hstatement .nil⟩

end JavaScriptCore.Json
