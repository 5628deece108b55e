/-
# Flattened concatenation follows the additions

`emitStrcat` plants each conversion where the sequence of `op_add` would have made it: the leftmost
operand is converted after the second one has been evaluated, every other operand right after its
own evaluation, and the left-hand side of an assignment last.  The proof goes along the left spine.
What carries it is that the innermost flattened addition must give a string, by its operands' result
types, so that from there on every addition concatenates, and the registers hold the pieces of the
string that the additions have built.

There is one difference.  An addition whose string would have `2 ^ 32` code units or more throws an
out-of-memory error at once; `op_strcat` notices that only after the remaining operands have been
evaluated and converted.  It does not return a string then either.
-/
import Mathlib.Algebra.Order.BigOperators.Group.List
import Mathlib.Algebra.Order.Group.Nat
import JavaScriptCore.Bytecompiler.Strcat

namespace JavaScriptCore.Bytecompiler

open Operations JavaScriptCore.Parser Lib.Effects List Function Nat AddTree ResultType

variable {N Leaf : Type} (arithmetic : NumberArithmetic N)

/-! ## 1. Running code -/

section Running

variable (E : Environment N Leaf)

theorem execute_singleton (i : AddInstruction Leaf) (regs : Registers E) :
    execute arithmetic E [i] regs = executeOne arithmetic E regs i := by
  simp [execute]

theorem execute_append (code code' : List (AddInstruction Leaf)) (regs : Registers E) :
    execute arithmetic E (code ++ code') regs
      = execute arithmetic E code regs >>= execute arithmetic E code' := by
  rw [execute, foldlM_append]
  rfl

@[simp] theorem raise_pure {α : Type} (a : α) : raise (pure a : E.Computation α) = pure a := rfl

/-- A step of the environment returns what the environment does. -/
theorem returns_raise {α : Type} {P : α → Prop} {c : E.Computation α} (h : Returns P c) :
    Returns P (raise c) := by
  intro s a s' ha
  cases hc : outcome c s with
  | mk result s'' =>
    have hraise : outcome (raise c) s = (result.mapError .exception, s'') := by
      show (Except.mapError Failure.exception (outcome c s).1, (outcome c s).2) = _
      rw [hc]
    rw [hraise] at ha
    cases result with
    | ok b =>
      cases ha
      exact h s a s' hc
    | error e => cases ha

/-- The excused failure. -/
def IsOutOfMemory (f : Failure E.Exception) : Prop := f = .outOfMemory

end Running

/-! ## 2. What is known to be a string -/

/-- A value is a string. -/
def IsStringValue {Object : Type} (v : Value N Object) : Prop := ∃ s, v = .primitive (.string s)

variable {E : Environment N Leaf} {types : Leaf → ResultType}

/-- The result types of the operands tell the truth. -/
abbrev TypesHold (E : Environment N Leaf) (types : Leaf → ResultType) : Prop :=
  ∀ l, (types l).definitelyIsString = true → Returns IsStringValue (E.evaluate l)

theorem jsAddPrimitives_of_isString {p q : Primitive N}
    (h : p.isString = true ∨ q.isString = true) :
    jsAddPrimitives arithmetic E p q
      = jsString E (p.toString arithmetic) (q.toString arithmetic) >>= fun s =>
        pure (.string s) := by
  rw [jsAddPrimitives, if_pos ((Bool.or_eq_true _ _).mpr h)]

theorem returns_jsAddPrimitives {p q : Primitive N} (h : p.isString = true ∨ q.isString = true) :
    Returns (fun r => ∃ s, r = .string s) (jsAddPrimitives arithmetic E p q) := by
  rw [jsAddPrimitives_of_isString arithmetic h]
  exact .bind (.trivial _) fun s _ => .pure ⟨s, rfl⟩

/-- The addition of a string gives a string. -/
theorem returns_jsAdd {v w : E.Value} (h : IsStringValue v ∨ IsStringValue w) :
    Returns (fun r => ∃ s, r = .string s) (jsAdd arithmetic E v w) := by
  rw [jsAdd]
  rcases h with ⟨s, rfl⟩ | ⟨s, rfl⟩
  · rw [toPrimitive_primitive, raise_pure, pure_bind]
    exact .bind (.trivial _) fun q _ => returns_jsAddPrimitives arithmetic (.inl rfl)
  · refine .bind (.trivial _) fun p _ => ?_
    rw [toPrimitive_primitive, raise_pure, pure_bind]
    exact returns_jsAddPrimitives arithmetic (.inr rfl)

/-- **The result types of additions tell the truth.** -/
theorem AddTree.returns_string (htypes : TypesHold E types) (e : AddTree Leaf)
    (h : (e.resultDescriptor types).definitelyIsString = true) :
    Returns IsStringValue (e.evaluate arithmetic E) := by
  induction e with
  | string value => exact .pure ⟨value, rfl⟩
  | operand l => exact returns_raise _ (htypes l h)
  | add e1 e2 ih1 ih2 =>
    have hadd : ∀ v w : E.Value, IsStringValue v ∨ IsStringValue w →
        Returns IsStringValue (jsAdd arithmetic E v w >>= fun p =>
          (pure (.primitive p) : Code E E.Value)) := by
      intro v w hvw
      refine .bind (returns_jsAdd arithmetic hvw) ?_
      rintro p ⟨s, rfl⟩
      exact .pure ⟨s, rfl⟩
    rw [evaluate]
    rcases definitelyIsString_forAdd h with h1 | h2
    · refine .bind (ih1 h1) fun v hv => ?_
      exact .bind (.trivial _) fun w _ => hadd v w (.inl hv)
    · refine .bind (.trivial _) fun v _ => ?_
      exact .bind (ih2 h2) fun w hw => hadd v w (.inr hw)

/-! ## 3. The spine -/

/-- The additions above the leftmost operand, whose value is given. -/
def continueAdditions (E : Environment N Leaf) (v : E.Value) : List (AddTree Leaf) → Code E E.Value
  | [] => pure v
  | e :: expressions => do
    let w ← e.evaluate arithmetic E
    let p ← jsAdd arithmetic E v w
    continueAdditions E (.primitive p) expressions

/-- **Flattening does not change the additions.** -/
theorem evaluate_flattenStringAdds (E : Environment N Leaf) (types : Leaf → ResultType)
    (e : AddTree Leaf) (es : List (AddTree Leaf)) :
    ((flattenStringAdds types e es).1.evaluate arithmetic E >>= fun v =>
        continueAdditions arithmetic E v (flattenStringAdds types e es).2)
      = e.evaluate arithmetic E >>= fun v => continueAdditions arithmetic E v es := by
  induction e generalizing es with
  | add e1 e2 ih1 _ =>
    rw [flattenStringAdds]
    split
    · rw [ih1 (e2 :: es)]
      simp [evaluate, continueAdditions]
    · rfl
  | _ => rfl

/-- **The innermost addition gives a string**, since the one that the flattening starts with does.
-/
theorem flattenStringAdds_string (types : Leaf → ResultType) (e head : AddTree Leaf)
    (tail : List (AddTree Leaf))
    (h : ((add e head).resultDescriptor types).definitelyIsString = true) :
    ∃ head' tail', (flattenStringAdds types e (head :: tail)).2 = head' :: tail' ∧
      ((add (flattenStringAdds types e (head :: tail)).1 head').resultDescriptor
        types).definitelyIsString = true := by
  induction e generalizing head tail with
  | add e1 e2 ih1 _ =>
    rw [flattenStringAdds]
    split
    · next hstring =>
      rw [isStringAdd, Bool.and_eq_true] at hstring
      exact ih1 e2 (head :: tail) hstring.2
    · exact ⟨head, tail, rfl, h⟩
  | _ => exact ⟨head, tail, rfl, h⟩

/-! ## 4. The pieces of the string -/

section Pieces

variable {E : Environment N Leaf}

/-- The registers from `base` on hold these primitive values. -/
def Holds (regs : Registers E) (base : Register) (ps : List (Primitive N)) : Prop :=
  (List.range ps.length).map (fun i => regs (base + i)) = ps.map Value.primitive

variable {regs : Registers E} {base : Register} {ps : List (Primitive N)}

theorem Holds.frame {regs' : Registers E} (h : Holds regs base ps)
    (hframe : ∀ k, k < base + ps.length → regs' k = regs k) : Holds regs' base ps := by
  rw [Holds, ← h]
  refine map_congr_left fun i hi => ?_
  exact hframe _ (Nat.add_lt_add_left (mem_range.mp hi) _)

theorem Holds.concat {p : Primitive N} (h : Holds regs base ps)
    (hp : regs (base + ps.length) = .primitive p) : Holds regs base (ps ++ [p]) := by
  rw [Holds] at h ⊢
  rw [length_append, length_singleton, range_succ, map_append, h, map_append,
    map_singleton, map_singleton, hp]

theorem Holds.cons {p : Primitive N} (hp : regs base = .primitive p)
    (h : Holds regs (base + 1) ps) :
    Holds regs base (p :: ps) := by
  rw [Holds] at h ⊢
  rw [length_cons, range_succ_eq_map, map_cons, map_map, map_cons, ← h, add_zero, hp]
  refine congrArg _ (map_congr_left fun i _ => ?_)
  show regs (base + (i + 1)) = regs (base + 1 + i)
  rw [add_assoc, add_comm 1 i]

/-- The text of the pieces. -/
def text (ps : List (Primitive N)) : List UInt16 := (ps.map (Primitive.toString arithmetic)).flatten

theorem text_concat (ps : List (Primitive N)) (p : Primitive N) :
    text arithmetic (ps ++ [p]) = text arithmetic ps ++ p.toString arithmetic := by
  simp [text]

theorem text_cons (ps : List (Primitive N)) (p : Primitive N) :
    text arithmetic (p :: ps) = p.toString arithmetic ++ text arithmetic ps := by
  simp [text]

theorem jsString_of_lt {s t : List UInt16} (h : s.length + t.length < lengthLimit) :
    jsString E s t = pure (s ++ t) := if_pos h

theorem jsString_of_le {s t : List UInt16} (h : lengthLimit ≤ s.length + t.length) :
    jsString E s t = throw .outOfMemory := if_neg (not_lt.mpr h)

/-- `op_strcat` concatenates the pieces if the whole is not too long. -/
theorem jsStringFromRegisterArray_of_lt {built : List UInt16}
    (h : built.length + (text arithmetic ps).length < lengthLimit) :
    jsStringFromRegisterArray arithmetic E built (ps.map .primitive)
      = pure (built ++ text arithmetic ps) := by
  induction ps generalizing built with
  | nil => simp [jsStringFromRegisterArray, text]
  | cons p ps ih =>
    rw [text_cons, length_append] at h
    rw [map_cons, jsStringFromRegisterArray, toPrimitive_primitive, raise_pure, pure_bind,
      jsString_of_lt (by omega), pure_bind, ih (by rw [length_append]; omega), text_cons,
      append_assoc]

/-- And it runs out of memory if the whole is too long. -/
theorem jsStringFromRegisterArray_of_le {built : List UInt16} (hbuilt : built.length < lengthLimit)
    (h : lengthLimit ≤ built.length + (text arithmetic ps).length) :
    jsStringFromRegisterArray arithmetic E built (ps.map .primitive) = throw .outOfMemory := by
  induction ps generalizing built with
  | nil =>
    simp only [text, map_nil, flatten_nil, length_nil] at h
    omega
  | cons p ps ih =>
    rw [text_cons, length_append] at h
    rw [map_cons, jsStringFromRegisterArray, toPrimitive_primitive, raise_pure, pure_bind]
    rcases lt_or_ge (built.length + (p.toString arithmetic).length) lengthLimit with hlt | hge
    · rw [jsString_of_lt hlt, pure_bind]
      refine ih ?_ ?_
      · rwa [length_append]
      · rw [length_append]
        omega
    · rw [jsString_of_le hge]
      rfl

end Pieces

/-! ## 5. Operands and conversions -/

section Operands

variable {arithmetic} {E : Environment N Leaf} {types : Leaf → ResultType}

/-- The code leaves the value in `dst` and changes no other register below `next`. -/
structure Leaves {E : Environment N Leaf} (regs : Registers E) (dst next : Register)
    (regs' : Registers E) (v : E.Value) : Prop where
  value : regs' dst = v
  frame : ∀ k, k < next → k ≠ dst → regs' k = regs k

/-- Two values in the next two registers. -/
theorem Leaves.two {regs regs1 regs2 : Registers E} {next : Register} {v w : E.Value}
    (hv : Leaves regs next (next + 1) regs1 v) (hw : Leaves regs1 (next + 1) (next + 2) regs2 w) :
    regs2 next = v ∧ ∀ k, k < next → regs2 k = regs k := by
  refine ⟨(hw.frame next (Nat.lt_add_of_pos_right Nat.two_pos) (succ_ne_self _).symm).trans
    hv.value, fun k hk => ?_⟩
  have hk1 : k < next + 1 := lt_succ_of_lt hk
  rw [hw.frame k (lt_succ_of_lt hk1) hk1.ne, hv.frame k hk1 hk.ne]

/-- **The code of a tree follows its additions.** -/
def Follows (arithmetic : NumberArithmetic N) (E : Environment N Leaf) (types : Leaf → ResultType)
    (e : AddTree Leaf) : Prop :=
  ∀ (dst next : Register) (regs : Registers E), dst < next →
    FollowsUnless (IsOutOfMemory E) (Leaves regs dst next)
    (execute arithmetic E (emitNode types dst next e) regs)
      (e.evaluate arithmetic E)

/-- A step of the environment whose result goes to a register. -/
theorem follows_update {α : Type} (c : Code E α) (g : α → E.Value)
    (regs : Registers E) (dst next : Register) : FollowsUnless (IsOutOfMemory E)
    (Leaves regs dst next)
      (c >>= fun a => pure (Function.update regs dst (g a))) (c >>= fun a => pure (g a)) := by
  refine .bind (.refl (R := Eq) (fun _ => rfl) c) ?_
  rintro a _ rfl
  refine .pure ⟨update_self .., ?_⟩
  intro k _ hk
  exact update_of_ne hk _ _

/-- The conversion of an operand that is in its register.  It is not planted for a literal string,
which needs none. -/
theorem follows_conversion (regs : Registers E) (r : Register) (skip : Bool)
    (hskip : skip = true → IsStringValue (regs r)) : FollowsUnless (IsOutOfMemory E)
      (fun regs' p => regs' r = .primitive p ∧ ∀ k, k ≠ r → regs' k = regs k)
      (execute arithmetic E (if skip then [] else [.toPrimitive r r]) regs)
      (raise (toPrimitive E .noPreference (regs r))) := by
  cases skip with
  | true =>
    obtain ⟨s, hs⟩ := hskip rfl
    rw [hs]
    exact .pure ⟨hs, fun _ _ => rfl⟩
  | false =>
    rw [if_neg Bool.false_ne_true, execute_singleton, executeOne]
    conv => arg 4; rw [← bind_pure (raise (toPrimitive E .noPreference (regs r)))]
    refine .bind (.refl (R := Eq) (fun _ => rfl) _) ?_
    rintro p _ rfl
    exact .pure ⟨update_self .., fun k hk => update_of_ne hk _ _⟩

theorem returns_of_isString {e : AddTree Leaf} :
    Returns (fun v => e.isString = true → IsStringValue v) (e.evaluate arithmetic E) := by
  cases e with
  | string value => exact .pure fun _ => ⟨value, rfl⟩
  | operand l | add e1 e2 => exact fun _ _ _ _ h => absurd h (by simp [isString])

/-- An operand after the second: it is evaluated and converted at once. -/
theorem follows_operand {e : AddTree Leaf} (he : Follows arithmetic E types e) (next : Register)
    (regs : Registers E) : FollowsUnless (IsOutOfMemory E)
      (fun regs' q => regs' next = .primitive q ∧ ∀ k, k < next → regs' k = regs k)
      (execute arithmetic E (emitNode types next (next + 1) e
        ++ if e.isString then [] else [.toPrimitive next next]) regs)
      (e.evaluate arithmetic E >>= fun w =>
        raise (toPrimitive E .noPreference w)) := by
  rw [execute_append]
  refine .bind ((he next (next + 1) regs (lt_succ_self _)).and_returns returns_of_isString) ?_
  rintro regs1 w ⟨hleaves, hstring⟩
  rw [← hleaves.value] at hstring ⊢
  refine (follows_conversion regs1 next e.isString hstring).mono ?_
  rintro regs2 q ⟨hq, hframe⟩
  refine ⟨hq, fun k hk => ?_⟩
  rw [hframe k hk.ne, hleaves.frame k (lt_succ_of_lt hk) hk.ne]

end Operands

/-! ## 6. Along the spine -/

section Spine

variable {arithmetic} {E : Environment N Leaf} {types : Leaf → ResultType}

variable {regs0 : Registers E} {dst next : Register} {tail : List (AddInstruction Leaf)}
  {finish : E.Value → Code E E.Value}

/-- The code follows `finish` on a string that is not too long, and otherwise it fails. -/
def FollowsString (regs0 : Registers E) (dst next : Register) (s : List UInt16)
    (code : Code E (Registers E)) (finish : E.Value → Code E E.Value) : Prop :=
  (s.length < lengthLimit → FollowsUnless (IsOutOfMemory E) (Leaves regs0 dst next) code
    (finish (.primitive (.string s)))) ∧
  (lengthLimit ≤ s.length → Fails code)

/-- Where the additions stop because the string is too long, the code goes on and fails at its end.
-/
theorem FollowsString.jsString {s t : List UInt16} {code : Code E (Registers E)}
    (h : FollowsString regs0 dst next (s ++ t) code finish) :
    FollowsUnless (IsOutOfMemory E) (Leaves regs0 dst next) code
      (jsString E s t >>= fun u => finish (.primitive (.string u))) := by
  rcases lt_or_ge (s.length + t.length) lengthLimit with hlt | hge
  · rw [jsString_of_lt hlt, pure_bind]
    exact h.1 (by rwa [length_append])
  · rw [jsString_of_le hge]
    exact .of_fails (h.2 (by rwa [length_append])) rfl

/-- What is asked of the code after the last operand, from registers that hold the pieces of a
string. -/
def Finishes (arithmetic : NumberArithmetic N) (E : Environment N Leaf) (regs0 : Registers E)
    (start total dst next : Register) (tail : List (AddInstruction Leaf))
    (finish : E.Value → Code E E.Value) : Prop :=
  ∀ (ps : List (Primitive N)) (regs : Registers E), ps.length = total → Holds regs start ps →
    (∀ k, k < next → regs k = regs0 k) →
    ((text arithmetic ps).length < lengthLimit →
      FollowsUnless (IsOutOfMemory E) (Leaves regs0 dst next) (execute arithmetic E tail regs)
        (finish (.primitive (.string (text arithmetic ps))))) ∧
    (lengthLimit ≤ (text arithmetic ps).length → Fails (execute arithmetic E tail regs))

/-- The addition of a further operand to a string that has been built. -/
theorem jsAdd_string (E : Environment N Leaf) (s : List UInt16) (w : E.Value) :
    jsAdd arithmetic E (.primitive (.string s)) w =
      raise (toPrimitive E .noPreference w) >>= fun q =>
      jsString E s (q.toString arithmetic) >>= fun t => pure (.string t) := by
  rw [jsAdd, toPrimitive_primitive, raise_pure, pure_bind]
  refine bind_congr fun q => ?_
  rw [jsAddPrimitives_of_isString arithmetic (.inl rfl)]
  rfl

theorem continueAdditions_string (E : Environment N Leaf) (s : List UInt16) (e : AddTree Leaf)
    (es : List (AddTree Leaf)) : continueAdditions arithmetic E (.primitive (.string s)) (e :: es)
      = (e.evaluate arithmetic E >>= fun w => raise (toPrimitive E .noPreference w)) >>= fun q =>
        jsString E s (q.toString arithmetic) >>= fun t =>
          continueAdditions arithmetic E (.primitive (.string t)) es := by
  simp only [continueAdditions, jsAdd_string, bind_assoc, pure_bind]

variable {start total : Register}

/-- **The loop over the operands after the second.**  The induction is on the operands that are
left; the registers hold the pieces of the string that the additions have built so far. -/
theorem follows_emitExpressions
    (hfinish : Finishes arithmetic E regs0 start total dst next tail finish)
    (hnext : next ≤ start) (es : List (AddTree Leaf)) :
    ∀ (ps : List (Primitive N)) (regs : Registers E),
      (∀ e ∈ es, Follows arithmetic E types e) → ps.length + es.length = total →
      Holds regs start ps →
      (∀ k, k < next → regs k = regs0 k) → FollowsString regs0 dst next (text arithmetic ps)
        (execute arithmetic E (emitExpressions types (start + ps.length) none es ++ tail) regs)
        fun v => continueAdditions arithmetic E v es >>= finish := by
  induction es with
  | nil =>
    intro ps regs _ htotal hholds hframe
    simp only [emitExpressions, continueAdditions, pure_bind]
    exact hfinish ps regs htotal hholds hframe
  | cons e es ih =>
    intro ps regs hes htotal hholds hframe
    have hoperand := follows_operand (hes e mem_cons_self) (start + ps.length) regs
    have hcode : emitExpressions types (start + ps.length) none (e :: es) ++ tail
        = (emitNode types (start + ps.length) (start + ps.length + 1) e
          ++ if e.isString then [] else [.toPrimitive (start + ps.length) (start + ps.length)])
          ++ (emitExpressions types (start + ps.length + 1) none es ++ tail) := by
      rw [emitExpressions]
      simp only [append_assoc, append_nil]
    -- What holds after the operand, whatever its value.
    have hafter : ∀ (regs1 : Registers E) (q : Primitive N),
        (regs1 (start + ps.length) = .primitive q ∧ ∀ k, k < start + ps.length → regs1 k = regs k) →
        _ := fun regs1 q hq =>
      ih (ps ++ [q]) regs1 (fun e' he' => hes e' (mem_cons_of_mem _ he'))
        (by rw [← htotal, length_append, length_singleton, length_cons, add_assoc, add_comm 1])
        ((hholds.frame hq.2).concat hq.1)
        (fun k hk => (hq.2 k (lt_of_lt_of_le hk (le_trans hnext (le_add_right _ _)))).trans
          (hframe k hk))
    simp only [length_append, length_singleton, ← add_assoc, text_concat] at hafter
    rw [hcode, execute_append]
    constructor
    · intro _
      beta_reduce
      rw [continueAdditions_string, bind_assoc]
      refine .bind hoperand ?_
      intro regs1 q hq
      rw [bind_assoc]
      exact (hafter regs1 q hq).jsString
    · intro hge
      refine Fails.bind hoperand.returns ?_
      rintro regs1 ⟨q, hq⟩
      refine (hafter regs1 q hq).2 ?_
      rw [length_append]
      omega

theorem returns_toPrimitive (E : Environment N Leaf) (preferred : PreferredPrimitiveType)
    (v : E.Value) :
    Returns (fun p => IsStringValue v → p.isString = true) (raise (toPrimitive E preferred v)) := by
  cases v with
  | primitive p =>
    refine .pure ?_
    rintro ⟨s, hs⟩
    cases hs
    rfl
  | object o =>
    intro _ p _ _
    rintro ⟨s, hs⟩
    cases hs

/-- The first two operands are in their registers: the leftmost one is converted, then the second,
and the additions go on with their concatenation. -/
theorem follows_first_conversions {regs : Registers E}
    (hfinish : Finishes arithmetic E regs0 start total dst next tail finish) (hnext : next ≤ start)
    {es : List (AddTree Leaf)} (hes : ∀ e ∈ es, Follows arithmetic E types e)
    (htotal : 2 + es.length = total) (hframe : ∀ k, k < next → regs k = regs0 k) {skip skip' : Bool}
    (hskip : skip = true → IsStringValue (regs start))
    (hskip' : skip' = true → IsStringValue (regs (start + 1)))
    (hstring : IsStringValue (regs start) ∨ IsStringValue (regs (start + 1))) :
    FollowsUnless (IsOutOfMemory E) (Leaves regs0 dst next)
    (execute arithmetic E ((if skip then [] else [.toPrimitive start start])
        ++ ((if skip' then [] else [.toPrimitive (start + 1) (start + 1)])
        ++ (emitExpressions types (start + 2) none es ++ tail))) regs)
      (jsAdd arithmetic E (regs start) (regs (start + 1)) >>= fun p =>
        continueAdditions arithmetic E (.primitive p) es >>= finish) := by
  rw [execute_append, jsAdd, bind_assoc]
  refine .bind ((follows_conversion regs start skip hskip).and_returns (returns_toPrimitive _ _ _))
    ?_
  rintro regs1 p ⟨⟨hp, hframe1⟩, hpstring⟩
  have hsecond : regs1 (start + 1) = regs (start + 1) := hframe1 _ (succ_ne_self _)
  rw [execute_append, bind_assoc, ← hsecond]
  rw [← hsecond] at hskip' hstring
  refine .bind ((follows_conversion regs1 (start + 1) skip' hskip').and_returns
    (returns_toPrimitive _ _ _)) ?_
  rintro regs2 q ⟨⟨hq, hframe2⟩, hqstring⟩
  have hholds : Holds regs2 start [p, q] :=
    Holds.cons ((hframe2 start (succ_ne_self _).symm).trans hp) (Holds.cons hq rfl)
  have htext : text arithmetic [p, q] = p.toString arithmetic ++ q.toString arithmetic := by
    simp [text]
  have hloop := follows_emitExpressions hfinish hnext es [p, q] regs2 hes htotal hholds ?_
  · rw [jsAddPrimitives_of_isString arithmetic (hstring.imp hpstring hqstring), bind_assoc]
    simp only [pure_bind]
    rw [htext] at hloop
    exact hloop.jsString
  · intro k hk
    have hlt : k < start := lt_of_lt_of_le hk hnext
    rw [hframe2 k (Nat.ne_of_lt (Nat.lt_succ_of_lt hlt)), hframe1 k hlt.ne, hframe k hk]

/-- **From the leftmost operand to the end.** -/
theorem follows_spine (htypes : TypesHold E types)
    (hfinish : Finishes arithmetic E regs0 start total dst next tail finish)
    (hnext : next ≤ start) {leftMost head : AddTree Leaf} {es : List (AddTree Leaf)}
    (hleft : Follows arithmetic E types leftMost) (hhead : Follows arithmetic E types head)
    (hes : ∀ e ∈ es, Follows arithmetic E types e) (htotal : 2 + es.length = total)
    (hstring : ((add leftMost head).resultDescriptor types).definitelyIsString = true) :
    FollowsUnless (IsOutOfMemory E) (Leaves regs0 dst next)
    (execute arithmetic E (emitNode types start (start + 1) leftMost
        ++ (emitExpressions types (start + 1)
            (if leftMost.isString then none else some start) (head :: es) ++ tail)) regs0)
      ((leftMost.evaluate arithmetic E >>= fun v =>
        continueAdditions arithmetic E v (head :: es)) >>= finish) := by
  have hcode : emitExpressions types (start + 1)
        (if leftMost.isString then none else some start) (head :: es) ++ tail
      = emitNode types (start + 1) (start + 2) head
        ++ ((if leftMost.isString then [] else [.toPrimitive start start])
        ++ ((if head.isString then [] else [.toPrimitive (start + 1) (start + 1)])
        ++ (emitExpressions types (start + 2) none es ++ tail))) := by
    cases leftMost.isString with
    | true =>
      rw [if_pos rfl, if_pos rfl, emitExpressions]
      simp only [append_assoc, nil_append]
    | false =>
      rw [if_neg Bool.false_ne_true, if_neg Bool.false_ne_true, emitExpressions]
      simp only [append_assoc]
  rw [hcode, execute_append, bind_assoc]
  have htyped (e : AddTree Leaf) : Returns (fun v => (e.resultDescriptor types).definitelyIsString
      = true → IsStringValue v) (e.evaluate arithmetic E) :=
    fun s v s' h hs => returns_string arithmetic htypes e hs s v s' h
  refine .bind (((hleft start (start + 1) regs0 (lt_succ_self _)).and_returns
    returns_of_isString).and_returns (htyped _)) ?_
  rintro regs1 v ⟨⟨hv, hvlit⟩, hvtyped⟩
  rw [execute_append, continueAdditions, bind_assoc]
  refine .bind (((hhead (start + 1) (start + 2) regs1 (lt_succ_self _)).and_returns
    returns_of_isString).and_returns (htyped _)) ?_
  rintro regs2 w ⟨⟨hw, hwlit⟩, hwtyped⟩
  obtain ⟨hstart, hframe⟩ := hv.two hw
  rw [← hstart] at hvlit hvtyped
  rw [← hw.value] at hwlit hwtyped
  rw [← hstart, ← hw.value, bind_assoc]
  exact follows_first_conversions hfinish hnext hes htotal (fun k hk =>
    hframe k (hk.trans_le hnext)) hvlit hwlit
    ((definitelyIsString_forAdd hstring).imp hvtyped hwtyped)

/-- What is left to do with the string: nothing, or to add it to the left-hand side of the
assignment. -/
def finishAdditions (arithmetic : NumberArithmetic N) (E : Environment N Leaf) (regs : Registers E)
    (lhs : Option Register) (v : E.Value) : Code E E.Value :=
  match lhs with
  | none => pure v
  | some src => do
    let p ← jsAdd arithmetic E (regs src) v
    pure (.primitive p)

variable (arithmetic) in
/-- Without an assignment, `op_strcat` is all that is left. -/
theorem finishes_strcat (E : Environment N Leaf) (regs0 : Registers E) (dst next total : Register) :
    Finishes arithmetic E regs0 next total dst next [.strcat dst next total]
      (finishAdditions arithmetic E regs0 none) := by
  intro ps regs hps hholds hframe
  subst hps
  rw [Holds] at hholds
  rw [execute_singleton, executeOne, hholds]
  constructor
  · intro hlt
    rw [jsStringFromRegisterArray_of_lt arithmetic (by simpa using hlt), pure_bind]
    refine .pure ⟨update_self .., fun k hk hne => ?_⟩
    rw [update_of_ne hne, hframe k hk]
  · intro hle
    rw [jsStringFromRegisterArray_of_le arithmetic (by decide) (by simpa using hle)]
    exact fails_throw _

/-- With an assignment, its left-hand side is converted first. -/
theorem finishes_toPrimitive_strcat (E : Environment N Leaf) (regs0 : Registers E)
    {next total src : Register} (hsrc : src < next) :
    Finishes arithmetic E regs0 (next + 1) total dst next
      ([.toPrimitive next src] ++ [.strcat dst next (total + 1)])
      (finishAdditions arithmetic E regs0 (some src)) := by
  intro ps regs hps hholds hframe
  subst hps
  rw [execute_append, execute_singleton, executeOne, bind_assoc, hframe src hsrc]
  have hholds' : ∀ p : Primitive N, Holds (update regs next (.primitive p)) next (p :: ps) := by
    intro p
    refine Holds.cons (update_self ..) ?_
    rw [Holds, ← hholds]
    refine map_congr_left fun i _ => update_of_ne ?_ _ _
    exact (Nat.ne_of_lt (Nat.lt_of_lt_of_le (Nat.lt_succ_self next) (Nat.le_add_right _ _))).symm
  have hrest := fun p => finishes_strcat arithmetic E regs0 dst next (ps.length + 1)
    (p :: ps) (update regs next (.primitive p)) rfl (hholds' p) (fun k hk =>
      (update_of_ne hk.ne _ _).trans (hframe k hk))
  constructor
  · intro _
    rw [finishAdditions, jsAdd, bind_assoc]
    refine .bind (.refl (R := Eq) (fun _ => rfl) _) ?_
    rintro p _ rfl
    rw [pure_bind, toPrimitive_primitive, raise_pure, pure_bind,
      jsAddPrimitives_of_isString arithmetic (.inr rfl), bind_assoc]
    have h := hrest p
    rw [text_cons] at h
    simp only [pure_bind]
    exact FollowsString.jsString h
  · intro hle
    refine Fails.bind (.trivial _) fun p _ => ?_
    rw [pure_bind]
    refine (hrest p).2 ?_
    rw [text_cons, length_append]
    omega

end Spine

/-! ## 7. Whole trees -/

section Trees

variable {arithmetic} {E : Environment N Leaf} {types : Leaf → ResultType}

/-- **`emitStrcat` follows the additions of its tree**, and then that of the assignment. -/
theorem follows_emitStrcat (htypes : TypesHold E types) {e1 e2 : AddTree Leaf}
    (hstring : ((add e1 e2).resultDescriptor types).definitelyIsString = true)
    (hsmaller : ∀ e : AddTree Leaf, e.size < (add e1 e2).size → Follows arithmetic E types e)
    (lhs : Option Register) (dst next : Register) (hlhs : ∀ src, lhs = some src → src < next)
    (regs : Registers E) :
    FollowsUnless (IsOutOfMemory E) (Leaves regs dst next)
    (execute arithmetic E (emitStrcat types dst next lhs e1 e2) regs)
      ((add e1 e2).evaluate arithmetic E
        >>= finishAdditions arithmetic E regs lhs) := by
  obtain ⟨head, tail, hflat, htyped⟩ := flattenStringAdds_string types e1 e2 [] hstring
  have hsize := size_flattenStringAdds types e1 [e2]
  have hpos := (flattenStringAdds types e1 [e2]).1.size_pos
  have hevaluate : (add e1 e2).evaluate arithmetic E
      = e1.evaluate arithmetic E >>= fun v =>
        continueAdditions arithmetic E v [e2] := by
    simp [evaluate, continueAdditions]
  rw [hevaluate, ← evaluate_flattenStringAdds arithmetic _ types, emitStrcat.eq_def]
  generalize hleft : (flattenStringAdds types e1 [e2]).1 = leftMost at *
  simp only [hleft, hflat, totalSize, map_cons, map_nil, sum_cons, sum_nil] at hsize ⊢
  have hhead := head.size_pos
  have hmember : ∀ e ∈ tail, e.size ≤ (tail.map AddTree.size).sum := fun e he =>
    single_le_sum (fun _ _ => zero_le _) _ (mem_map_of_mem he)
  have hcount : ∀ a b c : Nat, a + 1 + b + (c + 1) - a = 2 + c + b := fun a b c => by omega
  have hfollows : ∀ e : AddTree Leaf, e.size ≤ e1.size + e2.size → Follows arithmetic E types e :=
    fun e he => hsmaller e (lt_succ_of_le he)
  have hleftMost : Follows arithmetic E types leftMost := hfollows _ (by omega)
  have hheadFollows : Follows arithmetic E types head := hfollows _ (by omega)
  have htail : ∀ e ∈ tail, Follows arithmetic E types e :=
    fun e he => hfollows _ (by have := hmember e he; omega)
  cases lhs with
  | none =>
    rw [show next + 1 + (head :: tail).length - next =
      2 + tail.length from hcount next 0 tail.length]
    simp only [append_nil, append_assoc]
    exact follows_spine htypes (finishes_strcat arithmetic _ regs dst next _) (le_refl _) hleftMost
      hheadFollows htail rfl htyped
  | some src =>
    rw [show next + 1 + 1 + (head :: tail).length - next =
      2 + tail.length + 1 from hcount next 1 tail.length]
    simp only [append_assoc]
    exact follows_spine htypes (finishes_toPrimitive_strcat _ regs (hlhs src rfl))
      (le_succ _) hleftMost
      hheadFollows htail rfl htyped

/-- An addition that is compiled to `op_add`. -/
theorem follows_add {e1 e2 : AddTree Leaf} (h1 : Follows arithmetic E types e1)
    (h2 : Follows arithmetic E types e2) {dst next : Register} (regs : Registers E) :
    FollowsUnless (IsOutOfMemory E) (Leaves regs dst next)
    (execute arithmetic E (emitNode types next (next + 1) e1
        ++ emitNode types (next + 1) (next + 2) e2 ++ [.add dst next (next + 1)]) regs)
      ((add e1 e2).evaluate arithmetic E) := by
  rw [execute_append, execute_append, bind_assoc, evaluate]
  refine .bind (h1 next (next + 1) regs (lt_succ_self _)) ?_
  intro regs1 v hv
  refine .bind (h2 (next + 1) (next + 2) regs1 (lt_succ_self _)) ?_
  intro regs2 w hw
  obtain ⟨hnext, hframe⟩ := hv.two hw
  rw [execute_singleton, executeOne, hnext, hw.value]
  refine (follows_update _ _ regs2 dst next).mono ?_
  intro regs3 x hx
  exact ⟨hx.value, fun k hk hne => (hx.frame k hk hne).trans (hframe k hk)⟩

/-- **The code of every tree follows its additions.**  By induction on the size: the operands of a
flattened tree are not its children. -/
theorem follows_emitNode (htypes : TypesHold E types) (e : AddTree Leaf) :
    Follows arithmetic E types e := by
  induction hn : e.size using Nat.strong_induction_on generalizing e with
  | _ n ih =>
    subst hn
    have hsmaller : ∀ e' : AddTree Leaf, e'.size < e.size → Follows arithmetic E types e' :=
      fun e' he' => ih _ he' e' rfl
    intro dst next regs hdst
    cases e with
    | string value =>
      rw [emitNode, execute_singleton, executeOne, evaluate]
      exact .pure ⟨update_self .., fun k _ hk => update_of_ne hk _ _⟩
    | operand l =>
      rw [emitNode, execute_singleton, executeOne, evaluate]
      have h := follows_update (raise (E.evaluate l)) id regs dst next
      rwa [show (raise (E.evaluate l) >>= fun a => pure (id a)) = raise (E.evaluate l)
        from bind_pure _] at h
    | add e1 e2 =>
      rw [emitNode]
      split
      · next hstring =>
        rw [isStringAdd, Bool.and_eq_true] at hstring
        have hroot : ((add e1 e2).resultDescriptor types).definitelyIsString = true := by
          rw [resultDescriptor, forAdd_of_left hstring.2]
          decide
        have h :=
          follows_emitStrcat htypes hroot hsmaller none dst next (fun _ h => by cases h) regs
        rwa [show (finishAdditions arithmetic E regs none) = pure from rfl, bind_pure] at h
      · exact follows_add (hsmaller e1 (by simp only [AddTree.size]; omega))
          (hsmaller e2 (by simp only [AddTree.size]; omega)) regs

/-- The code of `+=` follows the additions of its right-hand side and then that of the assignment.
-/
theorem follows_emitPlusEq (htypes : TypesHold E types) (e : AddTree Leaf) {dst next src : Register}
    (hsrc : src < next) (regs : Registers E) :
    FollowsUnless (IsOutOfMemory E) (Leaves regs dst next)
    (execute arithmetic E (emitPlusEq types dst next src e) regs)
      (e.evaluate arithmetic E
        >>= finishAdditions arithmetic E regs (some src)) := by
  have hadd : FollowsUnless (IsOutOfMemory E) (Leaves regs dst next)
    (execute arithmetic E (emitNode types next (next + 1) e ++ [.add dst src next]) regs)
      (e.evaluate arithmetic E
        >>= finishAdditions arithmetic E regs (some src)) := by
    rw [execute_append]
    refine .bind (follows_emitNode htypes e next (next + 1) regs (lt_succ_self _)) ?_
    intro regs1 v hv
    have hframe : ∀ k, k < next → regs1 k = regs k :=
      fun k hk => hv.frame k (lt_succ_of_lt hk) hk.ne
    rw [execute_singleton, executeOne, hv.value, hframe src hsrc]
    refine (follows_update _ _ regs1 dst next).mono ?_
    intro regs2 x hx
    exact ⟨hx.value, fun k hk hne => (hx.frame k hk hne).trans (hframe k hk)⟩
  cases e with
  | string value | operand l => exact hadd
  | add e1 e2 =>
    rw [emitPlusEq]
    split
    · next hstring =>
      rw [isStringAdd, Bool.and_eq_true] at hstring
      exact follows_emitStrcat htypes hstring.2 (fun e _ => follows_emitNode htypes e)
        (some src) dst next
        (fun _ h => Option.some.inj h ▸ hsrc) regs
    · exact hadd

end Trees

/-! ## 8. The result -/

/-- **String concatenation follows the additions.**  For every tree, and for every tree on the right
of a `+=`, the code evaluates and converts the same operands in the same order as the sequence of
additions, and leaves the same value or throws the same exception; only where an addition runs out
of memory, because its string would be too long, the code may throw later than it.  The code changes
no register below the first temporary other than its destination. -/
theorem concatenation_follows_additions (arithmetic : NumberArithmetic N)
    (env : TypedEnvironment N Leaf) (e : AddTree Leaf) (dst next src : Register) (hdst : dst < next)
    (hsrc : src < next) (regs : Registers env.toEnvironment) :
    FollowsUnless (IsOutOfMemory env.toEnvironment) (Leaves regs dst next)
      (execute arithmetic env.toEnvironment (emitNode env.resultDescriptor dst next e) regs)
      (e.evaluate arithmetic env.toEnvironment) ∧
    FollowsUnless (IsOutOfMemory env.toEnvironment) (Leaves regs dst next)
      (execute arithmetic env.toEnvironment (emitPlusEq env.resultDescriptor dst next src e) regs)
      (do
        let v ← e.evaluate arithmetic env.toEnvironment
        let p ← jsAdd arithmetic env.toEnvironment (regs src) v
        pure (.primitive p)) :=
  ⟨follows_emitNode env.evaluate_string e dst next regs hdst,
    follows_emitPlusEq env.evaluate_string e hsrc regs⟩

/-- An environment with one operand, a string, and another that writes down that it was evaluated.
-/
def recordingEnvironment (s : List UInt16) : TypedEnvironment Unit Bool where
  World := Bool
  Exception := Empty
  Object := Empty
  evaluate l := if l then ofOutcome fun _ => (.ok (.primitive .undefined), true)
    else pure (.primitive (.string s))
  toPrimitive o _ := nomatch o
  resultDescriptor _ := .unknownType
  evaluate_string _ h := absurd h (by decide)

/-- The only arithmetic on one number. -/
def unitArithmetic : NumberArithmetic Unit where
  multiply _ _ := ()
  divide _ _ := ()
  fmod _ _ := ()
  add _ _ := ()
  subtract _ _ := ()
  negate _ := ()
  toInt32 _ := 0
  ofInt32 _ := ()
  ofUInt32 _ := ()
  nan := ()
  equalsOne _ := false
  stringToNumber _ := ()
  numberToString _ := []
  multiply_of_equalsOne h := nomatch h
  multiply_equalsOne h := nomatch h

/-- `"" + x + x + y`, where `x` is the string. -/
def overflowingTree : AddTree Bool :=
  .add (.add (.add (.string []) (.operand false)) (.operand false)) (.operand true)

theorem concatenation_follows_additions_instance :
    let env := recordingEnvironment (ascii "a")
    let regs : Registers env.toEnvironment := fun _ => .primitive .null
    FollowsUnless (IsOutOfMemory env.toEnvironment) (Leaves regs 0 2)
      (execute unitArithmetic env.toEnvironment (emitNode env.resultDescriptor 0 2 overflowingTree)
        regs)
      (overflowingTree.evaluate unitArithmetic env.toEnvironment) ∧
    FollowsUnless (IsOutOfMemory env.toEnvironment) (Leaves regs 0 2)
      (execute unitArithmetic env.toEnvironment (emitPlusEq env.resultDescriptor 0 2 1
        overflowingTree) regs)
      (do
        let v ← overflowingTree.evaluate unitArithmetic env.toEnvironment
        let p ← jsAdd unitArithmetic env.toEnvironment (regs 1) v
        pure (.primitive p)) :=
  concatenation_follows_additions unitArithmetic (recordingEnvironment (ascii "a"))
    overflowingTree 0 2 1
    Nat.two_pos Nat.one_lt_two _

/-- The code of the tree: no `op_add` is left. -/
theorem emitNode_overflowingTree : emitNode (fun _ => unknownType) 0 1 overflowingTree
      = [.load 1 [], .operand 2 false, .toPrimitive 2 2, .operand 3 false, .toPrimitive 3 3,
        .operand 4 true, .toPrimitive 4 4] ++ [.strcat 0 1 4] := by
  have hstring : (add (.string []) (.operand false) : AddTree Bool).isStringAdd
      (fun _ => unknownType) = true := by decide
  have hstring' : (add (.add (.string []) (.operand false)) (.operand false) :
      AddTree Bool).isStringAdd (fun _ => unknownType) = true := by decide
  simp [overflowingTree, emitNode, emitStrcat, flattenStringAdds, emitExpressions, hstring,
    hstring', isString]

/-- With a string of half the limit, the second addition runs out of memory, and `y` is not
evaluated. -/
theorem outcome_evaluate_overflowingTree {s : List UInt16} (hs : s.length = 2 ^ 31) :
    outcome (overflowingTree.evaluate unitArithmetic (recordingEnvironment s).toEnvironment) false
      = (.error .outOfMemory, false) := by
  have hx : (operand false : AddTree Bool).evaluate unitArithmetic
      (recordingEnvironment s).toEnvironment = pure (.primitive (.string s)) := rfl
  have hfirst : ([] : List UInt16).length + s.length < lengthLimit := by
    rw [hs]
    decide
  have hsecond : lengthLimit ≤ s.length + s.length := by
    rw [hs]
    decide
  have hinner : (add (.string []) (.operand false) : AddTree Bool).evaluate unitArithmetic
      (recordingEnvironment s).toEnvironment = pure (.primitive (.string s)) := by
    rw [evaluate, hx, evaluate, pure_bind, pure_bind, jsAdd_string, toPrimitive_primitive,
      raise_pure, pure_bind, Primitive.toString, jsString_of_lt hfirst]
    rfl
  have hmiddle : (add (.add (.string []) (.operand false)) (.operand false) :
      AddTree Bool).evaluate unitArithmetic (recordingEnvironment s).toEnvironment =
        throw .outOfMemory := by
    rw [evaluate, hinner, hx, pure_bind, pure_bind, jsAdd_string, toPrimitive_primitive,
      raise_pure, pure_bind, Primitive.toString, jsString_of_le hsecond]
    rfl
  rw [overflowingTree, evaluate, hmiddle]
  rfl

/-- The flattened code evaluates `y` before it runs out of memory. -/
theorem outcome_execute_overflowingTree {s : List UInt16} (hs : s.length = 2 ^ 31)
    (regs : Registers (recordingEnvironment s).toEnvironment) :
    outcome (execute unitArithmetic (recordingEnvironment s).toEnvironment
        (emitNode (recordingEnvironment s).resultDescriptor 0 1 overflowingTree) regs) false
      = (.error .outOfMemory, true) := by
  have hstrcat : jsStringFromRegisterArray unitArithmetic (recordingEnvironment s).toEnvironment []
      ([.string [], .string s, .string s, .undefined].map .primitive) = throw .outOfMemory := by
    refine jsStringFromRegisterArray_of_le _ (by decide) ?_
    simp only [text, Primitive.toString, map_cons, map_nil, flatten_cons,
      flatten_nil, length_append, hs, length_nil]
    decide
  rw [show (recordingEnvironment s).resultDescriptor = fun _ => unknownType from rfl,
    emitNode_overflowingTree]
  -- The operands, up to `op_strcat`.
  have hoperands : ∃ regs' : Registers (recordingEnvironment s).toEnvironment,
      outcome (execute unitArithmetic (recordingEnvironment s).toEnvironment
        [.load 1 [], .operand 2 false, .toPrimitive 2 2, .operand 3 false, .toPrimitive 3 3,
          .operand 4 true, .toPrimitive 4 4] regs) false = (.ok regs', true) ∧
      (range 4).map (fun i => regs' (1 + i))
        = [.string [], .string s, .string s, .undefined].map .primitive :=
    ⟨_, rfl, rfl⟩
  obtain ⟨regs', hrun, hregs⟩ := hoperands
  rw [execute_append, outcome_bind_of_ok hrun, execute_singleton, executeOne, hregs, hstrcat]
  rfl

/-- **Running out of memory is noticed later.**  The string `x` has `2 ^ 31` code units, as a rope
of a few cells can.  In `"" + x + x + y` the second addition throws before `y` is evaluated; the
code that is emitted evaluates `y` first. -/
theorem concatenation_overflows_later :
    let env := recordingEnvironment (List.replicate (2 ^ 31) 0)
    let regs : Registers env.toEnvironment := fun _ => .primitive .null
    outcome (overflowingTree.evaluate unitArithmetic env.toEnvironment) false =
      (.error .outOfMemory, false) ∧ outcome (execute unitArithmetic env.toEnvironment
          (emitNode env.resultDescriptor 0 1 overflowingTree) regs) false
        = (.error .outOfMemory, true) :=
  ⟨outcome_evaluate_overflowingTree length_replicate,
    outcome_execute_overflowingTree length_replicate _⟩

end JavaScriptCore.Bytecompiler
