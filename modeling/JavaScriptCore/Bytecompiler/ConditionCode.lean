/-
# The code for values, step by step

`Emitted program start g m c Q` is the one notion of correct code here.  It says of the instructions
that a generator emitted from the position `start` on that they carry out the computation `c` on the
world.  The last instruction is special while it may still be taken back: it need not be in the
finished program, so `Emitted` only says where the instructions before it lead, and what the last
one would do there.

`Emits` adds what the callers of `emitNode` rely on: the code only grows, the result is where it
should be, and the referenced temporaries are kept.  There is one lemma for each way to emit a node,
and `emitterSpec_emitNode` is the induction over expressions.
-/
import JavaScriptCore.Bytecompiler.ConditionMachine

namespace JavaScriptCore.Bytecompiler.Conditions

open Operations Generator List Machine Register
open JavaScriptCore.Parser
open JavaScriptCore.Runtime (Double)
open Lib.Effects

variable {Leaf Block α β : Type} {machine : Machine Leaf Block} {program : Program Block}
  {g g' g'' : Generator Block}

/-! ## 1. The code grows -/

/-- Nothing was emitted, or something was emitted behind all instructions that there were. -/
def Generator.Grows (g g' : Generator Block) : Prop :=
  g' = g ∨ (g.instructions <+: g'.settled ∧ g.size < g'.size ∧ g.locations <+: g'.locations)

theorem Generator.settled_prefix_instructions (g : Generator Block) :
    g.settled <+: g.instructions :=
  ⟨_, rfl⟩

theorem Generator.Grows.refl (g : Generator Block) : g.Grows g := .inl rfl

theorem Generator.Grows.trans (h : g.Grows g') (h' : g'.Grows g'') : g.Grows g'' := by
  rcases h with rfl | ⟨hcode, hsize, hlocations⟩
  · exact h'
  · rcases h' with rfl | ⟨hcode', hsize', hlocations'⟩
    · exact .inr ⟨hcode, hsize, hlocations⟩
    · exact .inr ⟨hcode.trans (g'.settled_prefix_instructions.trans hcode'), hsize.trans hsize',
        hlocations.trans hlocations'⟩

theorem Generator.Grows.size_le (h : g.Grows g') : g.size ≤ g'.size := by
  rcases h with rfl | ⟨-, hsize, -⟩
  · exact le_rfl
  · exact hsize.le

theorem Generator.Grows.locations_prefix (h : g.Grows g') : g.locations <+: g'.locations := by
  rcases h with rfl | ⟨-, -, h⟩
  · exact prefix_rfl
  · exact h

theorem Generator.Grows.instructions_prefix (h : g.Grows g') :
    g.instructions <+: g'.instructions := by
  rcases h with rfl | ⟨h, -⟩
  · exact prefix_rfl
  · exact h.trans g'.settled_prefix_instructions

@[simp] theorem Generator.size_emitOperation (g : Generator Block) (o : Operation Block) :
    (g.emitOperation o).size = g.size + 1 := by
  simp [size, emitOperation, instructions, Nat.add_assoc]

@[simp] theorem Generator.size_emitBranch (g : Generator Block) (j : Jump) :
    (g.emitBranch j).size = g.size + 1 := by
  simp [size, emitBranch, instructions, Nat.add_assoc]

variable {o : Operation Block}

theorem Generator.size_of_last_eq_some (h : g.last = some o) :
    g.size = g.settled.length + 1 := by
  simp [size, instructions, h]

theorem Generator.grows_emitOperation (g : Generator Block) (o : Operation Block) :
    g.Grows (g.emitOperation o) := .inr ⟨prefix_rfl, by simp, prefix_rfl⟩

theorem Generator.grows_emitBranch (g : Generator Block) (j : Jump) : g.Grows (g.emitBranch j) :=
  .inr ⟨prefix_append _ _, by simp, prefix_rfl⟩

/-- An instruction in the place of another. -/
theorem Generator.Grows.rewind (h : g.Grows g') (hsize : g.size < g'.size) {o o' : Operation Block}
    (hlast : g'.last = some o) : g.Grows (g'.rewind.emitOperation o') := by
  rcases h with rfl | ⟨hcode, -, hlocations⟩
  · omega
  · refine .inr ⟨?_, ?_, hlocations⟩
    · simpa [emitOperation, Generator.rewind, instructions] using hcode
    · rw [size_of_last_eq_some hlast] at hsize
      simpa [size, emitOperation, Generator.rewind, instructions] using hsize

/-! ## 2. The finished program -/

/-- The program contains what the generator has settled. -/
def Program.Includes (program : Program Block) (g : Generator Block) : Prop :=
  g.settled <+: program.code ∧ ∀ l q, g.locations[l]? = some (some q) → program.location l = some q

/-- The program contains all the code and the labels of the generator. -/
def Program.Contains (program : Program Block) (g : Generator Block) : Prop :=
  g.instructions <+: program.code ∧ ∀ l q, g.locations[l]? = some (some q) →
    program.location l = some q

theorem Program.Contains.includes (h : program.Contains g) : program.Includes g :=
  ⟨g.settled_prefix_instructions.trans h.1, h.2⟩

/-- What is in the program stays in it. -/
theorem Program.Includes.of_grows (h : program.Includes g') (hg : g.Grows g') :
    program.Includes g := by
  rcases hg with rfl | ⟨hcode, -, hlocations⟩
  · exact h
  · refine ⟨g.settled_prefix_instructions.trans (hcode.trans h.1), ?_⟩
    intro l q hq
    obtain ⟨rest, hrest⟩ := hlocations
    refine h.2 l q ?_
    rw [← hrest, List.getElem?_append_left (List.getElem?_eq_some_iff.mp hq).1, hq]

theorem Program.Includes.instruction (h : program.Includes g) {i : Nat} {x : Instruction Block}
    (hx : g.settled[i]? = some x) : program.code[i]? = some x := by
  obtain ⟨rest, hrest⟩ := h.1
  rw [← hrest]
  exact (List.getElem?_append_left (List.getElem?_eq_some_iff.mp hx).1).trans hx

variable {E : machine.Exception → machine.State → Prop} {m : machine.State}
  {Q : Nat → machine.State → Prop}

/-- A step of the program at an instruction that does not jump. -/
theorem leadsTo_operation {pc : Nat} (hcode : program.code[pc]? = some (.operation o))
    (h : Ensures (machine.runOperation o) m
      (fun _ m' => LeadsTo (program.instruction machine) Q E (pc + 1) m') E) :
    LeadsTo (program.instruction machine) Q E pc m := by
  refine LeadsTo.step (by rw [Program.instruction, hcode]) ?_
  rw [ensures_bind]
  exact h.mono (fun _ _ h => h) fun _ _ h => h

/-- A step of the program at a jump. -/
theorem leadsTo_jump {pc location : Nat} {j : Jump} (hcode : program.code[pc]? = some (.jump j))
    (hlocation : program.location j.target = some location)
    (h : Ensures (machine.jumpTaken j) m (fun taken m' =>
      LeadsTo (program.instruction machine) Q E (if taken then location else pc + 1) m') E) :
    LeadsTo (program.instruction machine) Q E pc m := by
  refine LeadsTo.step (by rw [Program.instruction, hcode]; simp only [hlocation]; rfl) ?_
  rw [ensures_bind]
  refine h.mono (fun taken m' h => ?_) fun _ _ h => h
  cases taken
  · exact h
  · exact h

/-! ## 3. Correct code -/

section Correct

variable {m m' m'' : machine.State} {c : machine.Computation α}
  {f : α → machine.Computation β} {Q : α → machine.State → Prop} {R : β → machine.State → Prop}

theorem Finishes.bind (h : Finishes machine c m Q m')
    (hf : ∀ a, Q a m' → Finishes machine (f a) m' R m'') : Finishes machine (c >>= f) m R m'' := by
  obtain ⟨a, hc, ha⟩ := h
  obtain ⟨b, hb, hR⟩ := hf a ha
  exact ⟨b, (outcome_bind_of_ok hc f).trans hb, hR⟩

theorem Throws.bind {e : machine.Exception} (h : Throws machine c m e m') :
    Throws machine (c >>= f) m e m' := outcome_bind_of_error h f

/-- Where the instructions lead that cannot be taken back any more. -/
def Target (machine : Machine Leaf Block) (g : Generator Block) (m : machine.State)
    (c : machine.Computation α) (Q : α → machine.State → Prop) (pc : Nat) (m' : machine.State) :
    Prop :=
  match g.last with
  | none => pc = g.size ∧ Finishes machine c m Q m'
  | some o => pc = g.settled.length ∧
    Ensures (machine.runOperation o) m' (fun _ m'' => Finishes machine c m Q m'')
    (Throws machine c m)

/-- **The code from `start` on carries out the computation.** -/
def Emitted (machine : Machine Leaf Block) (program : Program Block) (start : Nat)
    (g : Generator Block) (m : machine.State) (c : machine.Computation α)
    (Q : α → machine.State → Prop) : Prop :=
  if g.size = start then Finishes machine c m Q m
  else LeadsTo (program.instruction machine) (Target machine g m c Q) (Throws machine c m) start m

variable {d : machine.Computation β}

theorem Target.mono {m0 : machine.State} {pc : Nat} (h : Target machine g m c Q pc m')
    (hF : ∀ m'', Finishes machine c m Q m'' → Finishes machine d m0 R m'')
    (hT : ∀ e m'', Throws machine c m e m'' → Throws machine d m0 e m'') :
    Target machine g m0 d R pc m' := by
  unfold Target at h ⊢
  cases hlast : g.last with
  | none =>
    rw [hlast] at h
    exact ⟨h.1, hF _ h.2⟩
  | some o =>
    rw [hlast] at h
    exact ⟨h.1, h.2.mono (fun _ => hF) hT⟩

variable {start : Nat}

section

variable (h : Emitted machine program start g m c Q)

include h

/-- The same code for another computation with the same outcomes. -/
theorem Emitted.imp (hF : ∀ m', Finishes machine c m Q m' → Finishes machine d m R m')
    (hT : ∀ e m', Throws machine c m e m' → Throws machine d m e m') :
    Emitted machine program start g m d R := by
  unfold Emitted at h ⊢
  split
  · next hs => rw [if_pos hs] at h; exact hF m h
  · next hs =>
    rw [if_neg hs] at h
    exact h.mono (fun _ _ ht => ht.mono hF hT) hT

/-- What holds afterwards may be weakened. -/
theorem Emitted.mono {Q' : α → machine.State → Prop}
    (hQ : ∀ a m', Q a m' → Q' a m') : Emitted machine program start g m c Q' :=
  h.imp (fun m' ⟨a, hc, ha⟩ => ⟨a, hc, hQ a m' ha⟩) fun _ _ h => h

/-- Once the last instruction is in the program, the code leads to its end. -/
theorem Emitted.settle (hcode : g.instructions <+: program.code) :
    LeadsTo (program.instruction machine) (fun pc m' => pc = g.size ∧ Finishes machine c m Q m')
      (Throws machine c m) start m := by
  unfold Emitted at h
  split at h
  · next hsize => exact .here ⟨hsize.symm, h⟩
  · refine h.bind fun pc m1 hm1 => ?_
    unfold Target at hm1
    cases hlast : g.last with
    | none =>
      rw [hlast] at hm1
      exact .here hm1
    | some o =>
      rw [hlast] at hm1
      obtain ⟨rfl, hrun⟩ := hm1
      have hinstruction : program.code[g.settled.length]? = some (.operation o) := by
        obtain ⟨rest, hrest⟩ := hcode
        rw [← hrest]
        simp [instructions, hlast]
      refine leadsTo_operation hinstruction (hrun.mono (fun _ m' hm' => ?_) fun _ _ h => h)
      exact .here ⟨(size_of_last_eq_some hlast).symm, hm'⟩

/-- **Code after code.** -/
theorem Emitted.bind (hstart : start ≤ g.size) (hg : g.Grows g') (hp : program.Includes g')
    (hf : ∀ a m', Q a m' → Emitted machine program g.size g' m' (f a) R) :
    Emitted machine program start g' m (c >>= f) R := by
  rcases hg with rfl | ⟨hcode, hsize, -⟩
  · -- nothing more was emitted, so what comes after needs no instructions
    have hF : ∀ m', Finishes machine c m Q m' → Finishes machine (c >>= f) m R m' := by
      intro m' hm'
      refine hm'.bind fun a ha => ?_
      have := hf a m' ha
      rwa [Emitted, if_pos rfl] at this
    exact h.imp hF fun _ _ => Throws.bind
  · rw [Emitted, if_neg (by omega)]
    have hsettled := h.settle (hcode.trans hp.1)
    refine (hsettled.mono (fun _ _ h => h) fun _ _ => Throws.bind).bind ?_
    rintro pc m' ⟨rfl, hm'⟩
    obtain ⟨a, hc, ha⟩ := hm'
    have hnext := hf a m' ha
    rw [Emitted, if_neg (by omega)] at hnext
    refine hnext.mono (fun _ _ ht => ht.mono ?_ ?_) ?_
    · exact fun m'' hm'' =>
        Finishes.bind ⟨a, hc, rfl⟩ (Q := fun b _ => b = a) (by rintro _ rfl; exact hm'')
    · exact fun e m'' he => (outcome_bind_of_ok hc f).trans he
    · exact fun e m'' he => (outcome_bind_of_ok hc f).trans he

/-- An instruction in the place of the last one, which is taken back. -/
theorem Emitted.replace (hstart : start < g.size) {o o' : Operation Block} (hlast : g.last = some o)
    (hrun : ∀ m', Ensures (machine.runOperation o) m' (fun _ m'' => Finishes machine c m Q m'')
        (Throws machine c m) →
      Ensures (machine.runOperation o') m' (fun _ m'' => Finishes machine d m R m'')
      (Throws machine d m))
    (hT : ∀ e m', Throws machine c m e m' → Throws machine d m e m') :
    Emitted machine program start (g.rewind.emitOperation o') m d R := by
  have hsettled : (g.rewind.emitOperation o').settled = g.settled := by
    simp [emitOperation, rewind, instructions]
  have hsize : (g.rewind.emitOperation o').size = g.size := by
    rw [size_of_last_eq_some hlast, size_of_last_eq_some rfl, hsettled]
  rw [Emitted, if_neg (by omega)] at h ⊢
  refine h.mono ?_ hT
  rintro pc m' hm'
  rw [Target, hlast] at hm'
  exact ⟨hm'.1.trans (by rw [hsettled]), hrun m' hm'.2⟩

/-- One more instruction. -/
theorem Emitted.operation (hstart : start ≤ g.size)
    (hp : program.Includes (g.emitOperation o))
    (hf : ∀ a m', Q a m' → Ensures (machine.runOperation o) m'
      (fun _ m'' => Finishes machine (f a) m' R m'') (Throws machine (f a) m')) :
    Emitted machine program start (g.emitOperation o) m (c >>= f) R := by
  refine h.bind hstart (g.grows_emitOperation o) hp fun a m' ha => ?_
  rw [Emitted, if_neg (by simp)]
  exact .here ⟨rfl, hf a m' ha⟩

end

end Correct

/-! ## 4. Instructions and registers -/

section Registers

variable {held : Nat} {dst : Option Register} {r : Register} {m m' : machine.State}
  {E : machine.Exception → machine.State → Prop}

variable {Q : Unit → machine.State → Prop}

@[simp] theorem ensures_transfer {src : Register} {F : machine.Value → machine.Value} :
    Ensures (machine.transfer r src F) m Q E ↔ Q () (machine.write m r (F (machine.read m src))) :=
  Iff.rfl

@[simp] theorem ensures_onWorld {c : machine.Computation α} {Q : α → machine.State → Prop} :
    Ensures (machine.onWorld c) m Q E ↔
      Ensures c m.world (fun a w => Q a { m with world := w })
      (fun e w => E e { m with world := w }) := by
  unfold Ensures onWorld
  rw [outcome_ofOutcome]
  cases outcome c m.world with
  | mk result w => cases result <;> rfl

theorem ensures_runOperation_compare {op : Comparison} {src1 src2 : Register} :
    Ensures (machine.runOperation (.compare op r src1 src2)) m Q E ↔
      Ensures (machine.compare op (machine.read m src1) (machine.read m src2)) m.world
        (fun b w => Q () (machine.write { m with world := w } r (machine.boolean b)))
        (fun e w => E e { m with world := w }) := by
  simp only [runOperation, ensures_run, ensures_onWorld]

/-- A place for a result: the destination, or a free temporary. -/
def IsResult (held : Nat) (dst : Option Register) (r : Register) : Prop :=
  ∃ k, r = .temporary k ∧ (dst = some r ∨ dst = none ∧ held ≤ k)

section

variable (hr : IsResult held dst r)

include hr

theorem IsResult.eq_of_dst {d : Register} (hd : dst = some d) : r = d := by
  obtain ⟨k, rfl, hk | ⟨hk, -⟩⟩ := hr
  · exact Option.some.inj (hk.symm.trans hd)
  · rw [hk] at hd
    cases hd

theorem IsResult.free_of_none (hdst : dst = none) {k : Nat} (hk : r = .temporary k) : held ≤ k := by
  obtain ⟨k', rfl, hk' | ⟨-, hle⟩⟩ := hr
  · rw [hdst] at hk'
    cases hk'
  · cases hk
    exact hle

theorem read_write (v : machine.Value) : machine.read (machine.write m r v) r = v := by
  obtain ⟨k, rfl, -⟩ := hr
  simp [Machine.read, Machine.write]

theorem world_write (v : machine.Value) : (machine.write m r v).world = m.world := by
  obtain ⟨k, rfl, -⟩ := hr
  rfl

theorem agree_write (h : Agree machine held dst m m') (v : machine.Value) :
    Agree machine held dst m (machine.write m' r v) := by
  obtain ⟨k, rfl, hk⟩ := hr
  intro j hj hne
  have hjk : j ≠ k := by
    rintro rfl
    rcases hk with rfl | ⟨-, hle⟩
    · exact hne rfl
    · omega
  simp only [write, if_neg hjk]
  exact h j hj hne

end

/-- What is agreed without a destination is agreed with one. -/
theorem Agree.of_none (h : Agree machine held none m m') : Agree machine held dst m m' :=
  fun k hk _ => h k hk (by simp)

theorem Agree.trans {m'' : machine.State} (h : Agree machine held dst m m')
    (h' : Agree machine held dst m' m'') :
    Agree machine held dst m m'' := fun k hk hne => (h' k hk hne).trans (h k hk hne)

variable {held' : Nat}

/-- More references are kept. -/
theorem Agree.mono (h : Agree machine held' dst m m') (hle : held ≤ held') :
    Agree machine held dst m m' := fun k hk hne => h k (by omega) hne

/-- `finalDestination` is a place for a result. -/
theorem isResult_finalDestination {tempDst : Option Register} (hdst : IsDestination held dst)
    (hle : held ≤ held') (htemp : ∀ k, tempDst = some (.temporary k) → dst = none → held ≤ k) :
    IsResult held dst (finalDestination held' dst tempDst) := by
  cases dst with
  | some d =>
    obtain ⟨k, -, rfl⟩ := hdst d rfl
    exact ⟨k, rfl, .inl rfl⟩
  | none =>
    unfold finalDestination
    split
    · next h => cases h
    · exact ⟨_, rfl, .inr ⟨rfl, htemp _ rfl rfl⟩⟩
    · exact ⟨_, rfl, .inr ⟨rfl, hle⟩⟩

/-- `tempDestination` is a place for a result. -/
theorem isResult_tempDestination (hdst : IsDestination held dst) (hle : held ≤ held') :
    IsResult held dst (tempDestination held' dst) := by
  cases dst with
  | some d =>
    obtain ⟨k, -, rfl⟩ := hdst d rfl
    exact ⟨k, rfl, .inl rfl⟩
  | none => exact ⟨held', rfl, .inr ⟨rfl, hle⟩⟩

theorem le_hold (held : Nat) (r : Register) : held ≤ r.hold held := by
  cases r with
  | temporary k => exact Nat.le_max_left _ _
  | localVariable i | constant value => exact le_rfl

/-- A register in a `RefPtr` is a destination. -/
theorem isDestination_hold (hr : IsResult held dst r) : IsDestination (r.hold held) (some r) := by
  obtain ⟨k, rfl, -⟩ := hr
  rintro d hd
  cases hd
  exact ⟨k, by simp [hold], rfl⟩

/-- While a result is computed in its place, the other temporaries are kept. -/
theorem Agree.of_result (hr : IsResult held dst r) (h : Agree machine (r.hold held) (some r) m m') :
    Agree machine held dst m m' := by
  obtain ⟨k, rfl, hk⟩ := hr
  intro j hj hne
  refine h j (hj.trans_le (le_hold _ _)) fun hjk => ?_
  cases hjk
  rcases hk with rfl | ⟨-, hle⟩
  · exact hne rfl
  · omega

end Registers

/-! ## 5. Nodes -/

section Nodes

variable {held : Nat} {dst : Option Register} {g1 : Generator Block} {r : Register}

/-- **What `emitNode` guarantees.** -/
structure Emits (machine : Machine Leaf Block) (held : Nat) (dst : Option Register)
    (g : Generator Block) (result : Register × Generator Block)
    (c : machine.Computation machine.Value) : Prop where
  grows : g.Grows result.2
  result_of_dst : ∀ d, dst = some d → result.1 = d
  free_of_none : dst = none → ∀ k, result.1 = .temporary k → held ≤ k
  written : ∀ k, result.1 = .temporary k → g.size < result.2.size
  runs : ∀ program : Program Block, program.Includes result.2 → ∀ m,
    Emitted machine program g.size result.2 m c
      (fun v m' => machine.read m' result.1 = v ∧ Agree machine held dst m m')

/-- The emitter computes the value, whatever the generator has emitted before. -/
def EmitterSpec (machine : Machine Leaf Block) (emit : Emitter Block)
    (c : machine.Computation machine.Value) : Prop :=
  ∀ held dst g, IsDestination held dst → Emits machine held dst g (emit held dst g) c

/-- **An instruction that writes the result**, after code that has computed its operands. -/
theorem Emits.of_operation {c : machine.Computation α} {f : α → machine.Computation machine.Value}
    {Q : α → machine.State → Prop} (hgrows : g.Grows g1) (hr : IsResult held dst r)
    (hruns : ∀ program : Program Block, program.Includes g1 → ∀ m,
      Emitted machine program g.size g1 m c (fun a m' => Q a m' ∧ Agree machine held dst m m'))
    (hoperation : ∀ a m, Q a m → Ensures (machine.runOperation o) m
      (fun _ m' => ∃ v w, outcome (f a) m.world = (.ok v, w) ∧
        m' = machine.write { m with world := w } r v)
      (Throws machine (f a) m)) :
    Emits machine held dst g (r, g1.emitOperation o) (c >>= f) where
  grows := hgrows.trans (g1.grows_emitOperation o)
  result_of_dst _ := hr.eq_of_dst
  free_of_none hdst _ := hr.free_of_none hdst
  written _ _ := by
    have := hgrows.size_le
    simp only [size_emitOperation]
    omega
  runs program hp m := by
    refine (hruns program (hp.of_grows (g1.grows_emitOperation o)) m).operation hgrows.size_le hp ?_
    rintro a m' ⟨hQ, hagree⟩
    refine (hoperation a m' hQ).mono ?_ fun _ _ h => h
    rintro _ m'' ⟨v, w, hv, rfl⟩
    have hagree' : Agree machine held dst m { m' with world := w } := hagree
    exact ⟨v, by rw [hv, world_write hr], read_write hr v, agree_write hr hagree' v⟩

/-- A leaf. -/
theorem emitterSpec_emitLeaf {leaves : LeafEmitter Leaf Block} (h : leaves.Correct machine)
    (l : Leaf) :
    EmitterSpec machine (emitLeaf leaves l) (machine.evaluate l) := by
  intro held dst g hdst
  have hruns := h.runs l held dst hdst
  have hwritten := h.written l held dst
  have hresult : ∀ d, dst = some d → (leaves.emitBytecode l held dst).result = d := by
    rintro d rfl
    exact h.result_of_dst l held d
  have hfree : dst = none → ∀ k, (leaves.emitBytecode l held dst).result = .temporary k →
      held ≤ k := by
    rintro rfl k hk
    exact h.free_of_none l held k hk
  unfold emitLeaf
  generalize leaves.emitBytecode l held dst = code at hruns hwritten hresult hfree
  obtain ⟨block, last, result⟩ := code
  simp only [LeafCode.run] at hruns
  cases block with
  | none =>
    cases last with
    | none =>
      refine ⟨Generator.Grows.refl g, hresult, hfree, fun k hk => ?_, fun program hp m => ?_⟩
      · simpa using hwritten k hk
      · rw [Emitted, if_pos rfl]
        simpa using hruns m
    | some o =>
      refine ⟨g.grows_emitOperation o, hresult, hfree, fun k hk => by simp, fun program hp m => ?_⟩
      rw [Emitted, if_neg (by simp)]
      refine .here ⟨rfl, ?_⟩
      simpa using hruns m
  | some b =>
    cases last with
    | none =>
      refine ⟨g.grows_emitOperation _, hresult, hfree, fun k hk => by simp, fun program hp m => ?_⟩
      rw [Emitted, if_neg (by simp)]
      refine .here ⟨rfl, ?_⟩
      have := hruns m
      rw [ensures_bind] at this
      exact this.mono (fun _ _ h => h) fun _ _ h => h
    | some o =>
      refine ⟨(g.grows_emitOperation _).trans (grows_emitOperation _ o), hresult, hfree,
        fun k hk => ?_, fun program hp m => ?_⟩
      · simp only [size_emitOperation]
        omega
      · rw [Emitted, if_neg (by simp only [size_emitOperation]; omega)]
        have hblock : program.code[g.size]? = some (.operation (.block b)) := by
          refine hp.instruction ?_
          simp only [emitOperation, instructions, size]
          simp
        have hrun := hruns m
        rw [ensures_bind] at hrun
        refine leadsTo_operation hblock (hrun.mono (fun _ m' hm' => .here ⟨?_, hm'⟩) fun _ _ h => h)
        exact (size_emitOperation g _).symm

/-- A constant. -/
theorem emitterSpec_emitLoad (value : Primitive Double) :
    EmitterSpec machine (emitLoad value) (pure (.primitive value)) := by
  intro held dst g hdst
  cases dst with
  | none =>
    simp only [emitLoad]
    refine ⟨Generator.Grows.refl g, nofun, nofun, nofun, fun program hp m => ?_⟩
    rw [Emitted, if_pos rfl]
    exact ⟨_, rfl, rfl, fun _ _ _ => rfl⟩
  | some d =>
    obtain ⟨k, hk, rfl⟩ := hdst d rfl
    have hr : IsResult held (some (.temporary k)) (.temporary k) := ⟨k, rfl, .inl rfl⟩
    have hstart (program : Program Block) (_ : program.Includes g) (m : machine.State) :
        Emitted machine program g.size g m (pure ())
          (fun _ m' => True ∧ Agree machine held (some (.temporary k)) m m') := by
      rw [Emitted, if_pos rfl]
      exact ⟨(), rfl, trivial, fun _ _ _ => rfl⟩
    exact Emits.of_operation (f := fun _ => pure (.primitive value)) (Generator.Grows.refl g) hr
      hstart fun _ m _ => ⟨_, _, rfl, rfl⟩

variable {c : machine.Computation machine.Value}

/-- `!`. -/
theorem emitterSpec_emitLogicalNot {expr : Emitter Block} (h : EmitterSpec machine expr c) :
    EmitterSpec machine (emitLogicalNot expr)
      (c >>= fun v => pure (machine.boolean !(machine.toBoolean v))) := by
  intro held dst g hdst
  have hexpr := h held none g nofun
  refine Emits.of_operation (Q := fun v m => machine.read m (expr held none g).1 = v) hexpr.grows
    (isResult_finalDestination hdst le_rfl nofun) ?_ ?_
  · intro program hp m
    refine (Emitted.mono (hexpr.runs program hp m) ?_)
    rintro v m' ⟨hv, hagree⟩
    exact ⟨hv, hagree.of_none⟩
  · rintro v m rfl
    exact ⟨_, _, rfl, rfl⟩

variable {rightHasAssignments rightIsPure : Bool}

/-- The two ways to emit a left operand. -/
theorem emits_forLeftHandSide {leaves : LeafEmitter Leaf Block} {node : Emitter Block}
    (h : EmitterSpec machine node c) (held : Nat) (g : Generator Block) : Emits machine held none g
      (emitNodeForLeftHandSide leaves rightHasAssignments rightIsPure node held g) c := by
  unfold emitNodeForLeftHandSide
  split
  · have hr : IsResult held none (.temporary held) := ⟨held, rfl, .inr ⟨rfl, le_rfl⟩⟩
    have hnode := h (held + 1) (some (.temporary held)) g (by
      rintro d hd
      cases hd
      exact ⟨held, Nat.lt_succ_self _, rfl⟩)
    have hresult := hnode.result_of_dst _ rfl
    refine ⟨hnode.grows, nofun, fun _ k hk => ?_, fun k hk => hnode.written held hresult,
      fun program hp m => ?_⟩
    · cases hk
      exact le_rfl
    · refine (hnode.runs program hp m).mono ?_
      rintro v m' ⟨hv, hagree⟩
      refine ⟨hresult ▸ hv, Agree.of_result hr ?_⟩
      simpa [hold] using hagree
  · exact h held none g nofun

variable {c1 c2 : machine.Computation machine.Value}

/-- What a comparison does after its operands have been computed. -/
def comparisonOf (machine : Machine Leaf Block) (op : Comparison)
    (vs : machine.Value × machine.Value) :
    machine.Computation machine.Value := do
  return machine.boolean (← machine.compare op vs.1 vs.2)

/-- A comparison of what two computations give. -/
def comparing (machine : Machine Leaf Block) (op : Comparison)
    (c1 c2 : machine.Computation machine.Value) :
    machine.Computation machine.Value :=
  (c1 >>= fun v1 => c2 >>= fun v2 => pure (v1, v2)) >>= comparisonOf machine op

variable {op : Comparison} {src1 src2 : Register}

/-- The instruction of a comparison. -/
theorem ensures_compare {vs : machine.Value × machine.Value}
    (h : machine.read m src1 = vs.1 ∧ machine.read m src2 = vs.2) :
    Ensures (machine.runOperation (.compare op r src1 src2)) m
      (fun _ m' => ∃ v w, outcome (comparisonOf machine op vs) m.world = (.ok v, w) ∧
        m' = machine.write { m with world := w } r v)
      (Throws machine (comparisonOf machine op vs) m) := by
  rw [ensures_runOperation_compare, h.1, h.2]
  refine (ensures_outcome _ _).mono ?_ ?_
  · intro b w hb
    exact ⟨_, w, outcome_bind_of_ok hb _, rfl⟩
  · intro e w he
    exact outcome_bind_of_error he _

/-- What `emitEqualityOp` takes back. -/
theorem fusedTypeof_eq_some {r : Register} (h : fusedTypeof r src1 src2 g = some o) :
    ∃ k src type, g.last = some (.typeOf (.temporary k) src) ∧ src1 = .temporary k ∧
      src2 = .constant (.string (TypeName.text type)) ∧ o = .isType type r src := by
  unfold fusedTypeof at h
  split at h
  · next typeofDst typeofSrc value hlast =>
    split at h
    · next hsame =>
      rw [Option.map_eq_some_iff] at h
      obtain ⟨type, htype, rfl⟩ := h
      have hvalue : value = type.text := by simpa using find?_some htype
      cases src1 with
      | temporary k =>
        cases typeofDst with
        | temporary j =>
          have hkj : k = j := by simpa [sameIndex, isTemporary] using hsame
          exact ⟨j, typeofSrc, type, hlast, by rw [hkj], by rw [hvalue], rfl⟩
        | _ => simp [sameIndex] at hsame
      | _ => simp [isTemporary] at hsame
    · cases h
  · cases h

/-- Comparing two strings. -/
theorem comparisonOf_strings (hop : op = .equal ∨ op = .strictEqual) (s t : List UInt16) :
    comparisonOf machine op (.primitive (.string s), .primitive (.string t)) =
      pure (machine.boolean (s == t)) := by
  rcases hop with rfl | rfl
  · exact pure_bind _ _
  · exact pure_bind _ _

/-- **`emitEqualityOp`**, after code that has computed the operands. -/
theorem Emits.of_equalityOp (hop : op = .equal ∨ op = .strictEqual)
    {c : machine.Computation (machine.Value × machine.Value)} (hgrows : g.Grows g1)
    (hr : IsResult held dst r) (hsrc1 : ∀ k, src1 = .temporary k → held ≤ k ∧ g.size < g1.size)
    (hruns : ∀ program : Program Block, program.Includes g1 →
      ∀ m, Emitted machine program g.size g1 m c
        (fun vs m' => (machine.read m' src1 = vs.1 ∧ machine.read m' src2 = vs.2) ∧
          Agree machine held none m m')) :
    Emits machine held dst g (r, emitEqualityOp op r src1 src2 g1)
    (c >>= comparisonOf machine op) := by
  unfold emitEqualityOp
  cases hfused : fusedTypeof r src1 src2 g1 with
  | none =>
    refine Emits.of_operation hgrows hr ?_ fun vs m => ensures_compare
    exact fun program hp m => (hruns program hp m).mono fun vs m' h => ⟨h.1, h.2.of_none⟩
  | some o =>
    obtain ⟨k, src, type, hlast, rfl, rfl, rfl⟩ := fusedTypeof_eq_some hfused
    obtain ⟨hle, hsize⟩ := hsrc1 k rfl
    have hwhole : g.Grows (g1.rewind.emitOperation (.isType type r src)) :=
      hgrows.rewind hsize hlast
    have hincludes : ∀ program : Program Block,
        program.Includes (g1.rewind.emitOperation (.isType type r src)) → program.Includes g1 := by
      rintro program ⟨hcode, hlocations⟩
      exact ⟨by simpa [emitOperation, Generator.rewind, instructions] using hcode,
        hlocations⟩
    refine ⟨hwhole, fun d => hr.eq_of_dst, fun hdst k' => hr.free_of_none hdst, fun _ _ => ?_,
      fun program hp m => ?_⟩
    · rcases hwhole with heq | ⟨-, hlt, -⟩
      · have := congrArg size heq
        rw [size_of_last_eq_some rfl] at this
        rw [size_of_last_eq_some hlast] at hsize
        simp only [emitOperation, Generator.rewind, instructions, Option.map_none,
          Option.toList_none, append_nil] at this
        omega
      · exact hlt
    · refine (hruns program (hincludes program hp) m).replace hsize hlast ?_ fun _ _ => Throws.bind
      rintro m1 ⟨⟨v1, v2⟩, hc, ⟨hv1, hv2⟩, hagree⟩
      -- the first operand is what the `typeof` would have written
      have hv1' : v1 = .primitive (.string (machine.typeOf (machine.read m1 src))) := by
        refine hv1.symm.trans ?_
        simp [Machine.read, Machine.write]
      have hv2' : v2 = .primitive (.string type.text) := hv2.symm
      subst hv1' hv2'
      refine ⟨machine.boolean (machine.typeOf (machine.read m1 src) == type.text), ?_,
        read_write hr _, ?_⟩
      · rw [outcome_bind_of_ok hc, comparisonOf_strings hop, world_write hr]
        rfl
      · refine agree_write hr ?_ _
        intro j hj hne
        have := hagree j hj (Option.some_ne_none _).symm
        simpa [write, show j ≠ k by omega] using this

/-- A negated comparison is the negation of the positive one. -/
theorem comparisonOf_negated {positive : Comparison}
    (hop : op = .notEqual ∧ positive = .equal ∨ op = .notStrictEqual ∧ positive = .strictEqual)
    (vs : machine.Value × machine.Value) :
    (comparisonOf machine positive vs >>= fun v => pure (machine.boolean !(machine.toBoolean v))) =
      comparisonOf machine op vs := by
  rcases hop with ⟨rfl, rfl⟩ | ⟨rfl, rfl⟩
  · simp only [comparisonOf, Machine.compare, Operations.compare, bind_assoc, pure_bind]
    rfl
  · simp only [comparisonOf, Machine.compare, Operations.compare, pure_bind]
    rfl

section Operands

variable {leaves : LeafEmitter Leaf Block} {left right : Emitter Block}
  (h1 : EmitterSpec machine left c1)
  (h2 : EmitterSpec machine right c2)
  (hlocal : leaves.context.leftHandSideNeedsCopy rightHasAssignments rightIsPure = false →
    ∀ held g i, (left held none g).1 = .localVariable i →
      Preserves (fun world => machine.getLocal world i) c2)

include h1 h2 hlocal

/-- **The operands of a comparison.**  The left one is in its register when both have been computed:
a temporary because it is referenced, and the register of a local variable because it is copied
where it has to be. -/
theorem emits_operands (hdst : IsDestination held dst) (g : Generator Block) :
    let r1 := emitNodeForLeftHandSide leaves rightHasAssignments rightIsPure left held g
    let r2 := right (r1.1.hold held) none r1.2
    g.Grows r2.2 ∧ IsResult held dst (finalDestination (r1.1.hold held) dst (some r1.1)) ∧
    (∀ k, r1.1 = .temporary k → held ≤ k ∧ g.size < r2.2.size) ∧
    ∀ program : Program Block, program.Includes r2.2 → ∀ m,
      Emitted machine program g.size r2.2 m (c1 >>= fun v1 => c2 >>= fun v2 => pure (v1, v2))
        (fun vs m' => (machine.read m' r1.1 = vs.1 ∧ machine.read m' r2.1 = vs.2) ∧
          Agree machine held none m m') := by
  intro r1 r2
  have hleft : Emits machine held none g r1 c1 := emits_forLeftHandSide h1 held g
  have hright := h2 (r1.1.hold held) none r1.2 nofun
  refine ⟨hleft.grows.trans hright.grows, isResult_finalDestination hdst (le_hold _ _) fun k hk _ =>
    hleft.free_of_none rfl k (Option.some.inj hk),
    fun k hk => ⟨hleft.free_of_none rfl k hk, ?_⟩, ?_⟩
  · exact Nat.lt_of_lt_of_le (hleft.written k hk) hright.grows.size_le
  · intro program hp m
    refine (hleft.runs program (hp.of_grows hright.grows) m).bind hleft.grows.size_le
      hright.grows hp ?_
    rintro v1 m1 ⟨hv1, hagree1⟩
    -- the value of the left operand is still in its register
    have hkept : ∀ m2 v2, outcome c2 m1.world = (.ok v2, m2.world) →
        Agree machine (r1.1.hold held) none m1 m2 → machine.read m2 r1.1 = v1 := by
      intro m2 v2 hc2 hagree2
      rw [← hv1]
      cases hr1 : r1.1 with
      | constant value => rfl
      | temporary k =>
        refine hagree2 k ?_ nofun
        rw [hr1]
        simp [hold]
      | localVariable i =>
        have hcopy : leaves.context.leftHandSideNeedsCopy rightHasAssignments
            rightIsPure = false := by
          by_contra hcopy
          rw [Bool.not_eq_false] at hcopy
          simp [r1, emitNodeForLeftHandSide, hcopy] at hr1
        have hresult : (left held none g).1 = .localVariable i := by
          rw [← hr1]
          simp [r1, emitNodeForLeftHandSide, hcopy]
        have := hlocal hcopy held g i hresult m1.world
        rw [hc2] at this
        exact this
    refine (hright.runs program hp m1).imp ?_ fun _ _ => Throws.bind
    rintro m2 ⟨v2, hc2, hv2, hagree2⟩
    refine ⟨(v1, v2), outcome_bind_of_ok hc2 _, ⟨hkept m2 v2 hc2 hagree2, hv2⟩, ?_⟩
    exact hagree1.trans (hagree2.mono (le_hold _ _))

/-- A relational operator. -/
theorem emitterSpec_emitRelation (op : Comparison) :
    EmitterSpec machine (emitRelation leaves op rightHasAssignments rightIsPure left right)
      (comparing machine op c1 c2) := by
  intro held dst g hdst
  obtain ⟨hgrows, hresult, hfree, hruns⟩ := emits_operands h1 h2 hlocal hdst g
  refine Emits.of_operation hgrows hresult ?_ fun vs m => ensures_compare
  exact fun program hp m => (hruns program hp m).mono fun vs m' h => ⟨h.1, h.2.of_none⟩

/-- `==` and `===`. -/
theorem emitterSpec_emitEqual (hop : op = .equal ∨ op = .strictEqual) :
    EmitterSpec machine (emitEqual leaves op rightHasAssignments rightIsPure left right)
      (comparing machine op c1 c2) := by
  intro held dst g hdst
  obtain ⟨hgrows, hresult, hfree, hruns⟩ := emits_operands h1 h2 hlocal hdst g
  exact Emits.of_equalityOp hop hgrows hresult hfree hruns

/-- `!=` and `!==`. -/
theorem emitterSpec_emitNotEqual {positive : Comparison}
    (hop : op = .notEqual ∧ positive = .equal ∨ op = .notStrictEqual ∧ positive = .strictEqual) :
    EmitterSpec machine (emitNotEqual leaves op positive rightHasAssignments rightIsPure left right)
      (comparing machine op c1 c2) := by
  intro held dst g hdst
  obtain ⟨hgrows, hresult, hfree, hruns⟩ := emits_operands h1 h2 hlocal hdst g
  simp only [emitNotEqual]
  split
  · -- the positive comparison in a temporary, and its negation
    have hpositive : positive = .equal ∨ positive = .strictEqual := hop.imp (·.2) (·.2)
    have htemp := isResult_tempDestination hdst
      (le_hold held (emitNodeForLeftHandSide leaves rightHasAssignments rightIsPure left held g).1)
    have hequal := Emits.of_equalityOp hpositive hgrows htemp hfree hruns
    have hcomputation : (fun vs => comparisonOf machine op vs) = fun vs =>
        (comparisonOf machine positive vs >>= fun v =>
            pure (machine.boolean !(machine.toBoolean v))) :=
      funext fun vs => (comparisonOf_negated hop vs).symm
    rw [comparing, show comparisonOf machine op = _ from hcomputation, ← bind_assoc]
    refine Emits.of_operation (Q := fun v m => machine.read m (tempDestination _ dst) = v)
      hequal.grows
      (isResult_finalDestination hdst (Nat.le_trans (le_hold held _) (le_hold _ _)) ?_)
      hequal.runs ?_
    · intro k hk hnone
      exact hequal.free_of_none hnone k (Option.some.inj hk)
    · rintro v m rfl
      exact ⟨_, _, rfl, rfl⟩
  · refine Emits.of_operation hgrows hresult ?_ fun vs m => ensures_compare
    exact fun program hp m => (hruns program hp m).mono fun vs m' h => ⟨h.1, h.2.of_none⟩

end Operands

/-- A comparison with `null`. -/
theorem emitterSpec_emitNullComparison {operation : Register → Register → Operation Block}
    {F : machine.Value → Bool} (hoperation : ∀ r src, machine.runOperation (operation r src) =
      machine.transfer r src fun v => machine.boolean (F v))
    {expr : Emitter Block} (h : EmitterSpec machine expr c) :
    EmitterSpec machine (emitNullComparison operation expr)
    (c >>= fun v => pure (machine.boolean (F v))) := by
  intro held dst g hdst
  have hsrc := isResult_tempDestination hdst (Nat.le_refl held)
  have hexpr := h _ _ g (isDestination_hold hsrc)
  have hresult := hexpr.result_of_dst _ rfl
  refine Emits.of_operation (Q := fun v m => machine.read m (tempDestination held dst) = v)
    hexpr.grows (isResult_finalDestination hdst (le_hold _ _) ?_) ?_ ?_
  · intro k hk hnone
    subst hnone
    cases hk
    exact le_rfl
  · intro program hp m
    refine (hexpr.runs program hp m).mono ?_
    rintro v m' ⟨hv, hagree⟩
    exact ⟨hresult ▸ hv, hagree.of_result hsrc⟩
  · rintro v m rfl
    rw [hoperation]
    exact ⟨_, _, rfl, rfl⟩

end Nodes

/-! ## 6. Labels -/

/-- Where the last label is at the same place, there is no last instruction any more. -/
theorem Generator.last_of_lastJumpTarget (h : g.lastJumpTarget = some g.size) : g.last = none := by
  have hle := g.lastJumpTarget_le _ h
  cases hlast : g.last with
  | none => rfl
  | some o =>
    rw [size_of_last_eq_some hlast] at hle
    omega

section

variable (g : Generator Block)

@[simp] theorem Generator.settled_emitLabel (l : Label) :
    (g.emitLabel l).settled = g.instructions := by
  unfold emitLabel
  split
  · next h => simp [instructions, last_of_lastJumpTarget h]
  · rfl

@[simp] theorem Generator.last_emitLabel (l : Label) : (g.emitLabel l).last = none := by
  unfold emitLabel
  split
  · next h => exact last_of_lastJumpTarget h
  · rfl

@[simp] theorem Generator.locations_emitLabel (l : Label) :
    (g.emitLabel l).locations = g.locations.set l (some g.size) := by
  unfold emitLabel
  split <;> rfl

@[simp] theorem Generator.instructions_emitLabel (l : Label) :
    (g.emitLabel l).instructions = g.instructions := by
  simp [instructions]

@[simp] theorem Generator.size_emitLabel (l : Label) : (g.emitLabel l).size = g.size := by
  simp [size]

end

/-- The code between a new label and its place. -/
structure Generator.Labelled (g g' : Generator Block) : Prop where
  code : g.instructions <+: g'.settled
  size : g.size < g'.size
  locations : g.newLabel.2.locations <+: g'.locations

/-- A new label stays unbound. -/
theorem Generator.unbound_newLabel (h : g.newLabel.2.locations <+: g'.locations) :
    g'.locations[g.newLabel.1]? = some none := by
  obtain ⟨rest, hrest⟩ := h
  rw [← hrest]
  simp [newLabel]

/-- Binding a new label leaves the labels that there were. -/
theorem Generator.locations_prefix_emitLabel (h : g.newLabel.2.locations <+: g'.locations) :
    g.locations <+: (g'.emitLabel g.newLabel.1).locations := by
  obtain ⟨rest, hrest⟩ := h
  rw [locations_emitLabel, ← hrest]
  simp [newLabel]

/-- All the code between a new label and its place, and then the label. -/
theorem Generator.Labelled.grows (h : g.Labelled g') : g.Grows (g'.emitLabel g.newLabel.1) := by
  refine .inr ⟨?_, ?_, ?_⟩
  · rw [settled_emitLabel]
    exact h.code.trans g'.settled_prefix_instructions
  · rw [size_emitLabel]
    exact h.size
  · exact locations_prefix_emitLabel h.locations

/-- The finished program contains the code before a label and knows its place. -/
theorem Program.Includes.of_emitLabel {l : Label} (hp : program.Includes (g'.emitLabel l))
    (h : g'.locations[l]? = some none) : program.Contains g' ∧
    program.location l = some g'.size := by
  obtain ⟨hcode, hlocations⟩ := hp
  rw [settled_emitLabel] at hcode
  rw [locations_emitLabel] at hlocations
  refine ⟨⟨hcode, fun j q hq => ?_⟩, ?_⟩
  · refine hlocations j q ?_
    have hne : l ≠ j := by
      rintro rfl
      rw [h] at hq
      cases hq
    rw [getElem?_set_ne hne, hq]
  · refine hlocations l g'.size ?_
    rw [List.getElem?_set_self (List.getElem?_eq_some_iff.mp h).1]

@[simp] theorem Generator.size_newLabel (g : Generator Block) : g.newLabel.2.size = g.size := rfl

/-- Code that grows after a new label. -/
theorem Generator.Grows.labelled (h : g.newLabel.2.Grows g') (hsize : g.size < g'.size) :
    g.Labelled g' := by
  rcases h with rfl | ⟨hcode, -, hlocations⟩
  · rw [size_newLabel] at hsize
    omega
  · exact ⟨hcode, hsize, hlocations⟩

/-! ## 7. Logical operators -/

/-- A jump on a referenced temporary is not fused. -/
theorem emitJumpIfTrue_of_held {held : Nat} {cond : Register} (h : cond.isFree held = false)
    (target : Label) :
    emitJumpIfTrue held cond target g = g.emitBranch (.ifTrue cond target) := by
  have hfused : fusedJumpIfTrue held cond target g = none := by
    unfold fusedJumpIfTrue
    split
    · split <;> simp [h]
    · simp [h]
    · simp [h]
    · rfl
  rw [emitJumpIfTrue, hfused]

theorem emitJumpIfFalse_of_held {held : Nat} {cond : Register} (h : cond.isFree held = false)
    (target : Label) :
    emitJumpIfFalse held cond target g = g.emitBranch (.ifFalse cond target) := by
  have hfused : fusedJumpIfFalse held cond target g = none := by
    unfold fusedJumpIfFalse
    split
    · split <;> simp [h]
    · simp [h]
    · simp [h]
    · simp [h]
    · rfl
  rw [emitJumpIfFalse, hfused]

/-- The jump over the second operand. -/
def logicalJump (op : LogicalOperator) (temp : Register) (target : Label) : Jump :=
  match op with
  | .opLogicalAnd => .ifFalse temp target
  | .opLogicalOr => .ifTrue temp target

theorem target_logicalJump (op : LogicalOperator) (temp : Register) (target : Label) :
    (logicalJump op temp target).target = target := by
  cases op <;> rfl

/-- The jump is taken when the second operand is not needed. -/
theorem ensures_logicalJump {op : LogicalOperator} {temp : Register} {target : Label}
    {Q : Bool → machine.State → Prop} :
    Ensures (machine.jumpTaken (logicalJump op temp target)) m Q E ↔
      Q (machine.toBoolean (machine.read m temp) != (op == .opLogicalAnd)) m := by
  cases op with
  | opLogicalAnd =>
    simp only [logicalJump, jumpTaken, ensures_run]
    rw [show (LogicalOperator.opLogicalAnd == .opLogicalAnd) = true from rfl, Bool.bne_true]
  | opLogicalOr =>
    simp only [logicalJump, jumpTaken, ensures_run]
    rw [show (LogicalOperator.opLogicalOr == .opLogicalAnd) = false from rfl, Bool.bne_false]

theorem not_isFree_hold (held : Nat) (r : Register) : r.isFree (r.hold held) = false := by
  cases r with
  | temporary k => simp [isFree, hold]
  | localVariable i | constant value => rfl

/-- The result of a logical operator is in its temporary, which is the destination if there is one.
-/
theorem moveToDestinationIfNeeded_tempDestination {held : Nat} {dst : Option Register}
    (hdst : IsDestination held dst) (g : Generator Block) :
    moveToDestinationIfNeeded dst (tempDestination held dst) g = (tempDestination held dst, g) := by
  cases dst with
  | none => rfl
  | some d =>
    obtain ⟨k, -, rfl⟩ := hdst d rfl
    simp [moveToDestinationIfNeeded, tempDestination, sameIndex]

/-- **`&&` and `||` as values.** -/
theorem emitterSpec_emitLogicalOp (op : LogicalOperator) {expr1 expr2 : Emitter Block}
    {c1 c2 : machine.Computation machine.Value} (h1 : EmitterSpec machine expr1 c1)
    (h2 : EmitterSpec machine expr2 c2) : EmitterSpec machine (emitLogicalOp op expr1 expr2)
      (c1 >>= fun v => if machine.toBoolean v = (op == .opLogicalAnd) then c2 else pure v) := by
  intro held dst g hdst
  have hr := isResult_tempDestination hdst (Nat.le_refl held)
  have hemit : emitLogicalOp op expr1 expr2 held dst g =
      let temp := tempDestination held dst
      let g1 := (expr1 (temp.hold held) (some temp) g.newLabel.2).2
      let g2 := g1.emitBranch (logicalJump op temp g.newLabel.1)
      (temp, (expr2 (temp.hold held) (some temp) g2).2.emitLabel g.newLabel.1) := by
    cases op with
    | opLogicalAnd =>
      simp only [emitLogicalOp, emitJumpIfFalse_of_held (not_isFree_hold _ _), logicalJump]
      exact moveToDestinationIfNeeded_tempDestination hdst _
    | opLogicalOr =>
      simp only [emitLogicalOp, emitJumpIfTrue_of_held (not_isFree_hold _ _), logicalJump]
      exact moveToDestinationIfNeeded_tempDestination hdst _
  rw [hemit]
  generalize tempDestination held dst = temp at hr ⊢
  simp only
  have hemits1 := h1 _ _ g.newLabel.2 (isDestination_hold hr)
  generalize hr1 : expr1 (temp.hold held) (some temp) g.newLabel.2 = r1 at hemits1 ⊢
  generalize hg2 : r1.2.emitBranch (logicalJump op temp g.newLabel.1) = g2
  have hgrows2 : r1.2.Grows g2 := hg2 ▸ r1.2.grows_emitBranch _
  have hsize2 : g2.size = r1.2.size + 1 := by rw [← hg2, size_emitBranch]
  have hemits2 := h2 _ _ g2 (isDestination_hold hr)
  generalize hr2 : expr2 (temp.hold held) (some temp) g2 = r2 at hemits2 ⊢
  have hsize1 := hemits1.grows.size_le
  rw [size_newLabel] at hsize1
  have hsize : g.size < r2.2.size := by
    have := hemits2.grows.size_le
    omega
  have hlabelled := ((hemits1.grows.trans hgrows2).trans hemits2.grows).labelled hsize
  refine ⟨hlabelled.grows, fun d => hr.eq_of_dst, fun hnone k => hr.free_of_none hnone,
    fun _ _ => ?_, fun program hp m => ?_⟩
  · rwa [size_emitLabel]
  obtain ⟨hcontains, hlocation⟩ := hp.of_emitLabel (unbound_newLabel hlabelled.locations)
  have hp2 := hcontains.includes
  have hpg2 := hp2.of_grows hemits2.grows
  have hcode1 : r1.2.instructions <+: program.code := by
    refine List.IsPrefix.trans ?_ hpg2.1
    rw [← hg2]
    exact prefix_append _ _
  have hjump : program.code[r1.2.size]? = some (.jump (logicalJump op temp g.newLabel.1)) := by
    refine hpg2.instruction ?_
    rw [← hg2]
    simp [emitBranch, size]
  rw [Emitted, if_neg (by rw [size_emitLabel]; omega)]
  have hruns1 := (hemits1.runs program (hpg2.of_grows hgrows2) m).settle hcode1
  refine (hruns1.mono (fun _ _ h => h) fun _ _ => Throws.bind).bind ?_
  rintro pc m1 ⟨rfl, v, hc1, hv, hagree⟩
  rw [hemits1.result_of_dst _ rfl] at hv
  refine leadsTo_jump hjump (by rw [target_logicalJump, hlocation]) ?_
  rw [ensures_logicalJump, hv]
  by_cases hneeded : machine.toBoolean v = (op == .opLogicalAnd)
  · -- the second operand is needed
    rw [if_neg (by simp [hneeded]), ← hsize2]
    have hruns2 := (hemits2.runs program hp2 m1).settle hcontains.1
    refine hruns2.mono ?_ ?_
    · rintro pc m2 ⟨rfl, w, hc2, hw, hagree2⟩
      rw [hemits2.result_of_dst _ rfl] at hw
      rw [Target, last_emitLabel, size_emitLabel]
      refine ⟨rfl, w, ?_, hw, ?_⟩
      · rw [outcome_bind_of_ok hc1, if_pos hneeded, hc2]
      · exact Agree.of_result hr (hagree.trans hagree2)
    · intro e m2 he
      unfold Throws
      rw [outcome_bind_of_ok hc1, if_pos hneeded]
      exact he
  · rw [if_pos (by simpa using hneeded)]
    refine .here ?_
    rw [Target, last_emitLabel, size_emitLabel]
    refine ⟨rfl, v, ?_, hv, Agree.of_result hr hagree⟩
    rw [outcome_bind_of_ok hc1, if_neg hneeded]
    rfl

/-! ## 8. All expressions -/

variable {leaves : LeafEmitter Leaf Block}

/-- The value of a comparison, by the values of its operands. -/
theorem evaluate_comparison (op : Comparison) (expr1 expr2 : Condition Leaf) (flag : Bool) :
    (Condition.comparison op expr1 expr2 flag).evaluate machine =
      comparing machine op (expr1.evaluate machine) (expr2.evaluate machine) := by
  simp only [Condition.evaluate, comparing, comparisonOf, bind_assoc, pure_bind]

variable {expr : Condition Leaf}

theorem evaluate_of_isNull (h : expr.isNull = true) :
    expr.evaluate machine = pure (.primitive .null) := by
  unfold Condition.isNull at h
  split at h
  · rfl
  · cases h

theorem evaluate_of_isString (h : expr.isString = true) :
    ∃ s, expr.evaluate machine = pure (.primitive (.string s)) := by
  unfold Condition.isString at h
  split at h
  · exact ⟨_, rfl⟩
  · cases h

variable {op : Comparison}

/-- The equality operators do not care which of the operands is a string constant. -/
theorem comparisonOf_string_comm
    (hop : op = .equal ∨ op = .strictEqual ∨ op = .notEqual ∨ op = .notStrictEqual)
    (s : List UInt16) (v : machine.Value) :
    comparisonOf machine op (v, .primitive (.string s)) =
      comparisonOf machine op (.primitive (.string s), v) := by
  rcases hop with rfl | rfl | rfl | rfl
  · simp only [comparisonOf, Machine.compare, Operations.compare, looseEquals_string_comm]
  · simp only [comparisonOf, Machine.compare, Operations.compare, strictEquals_string_comm]
  · simp only [comparisonOf, Machine.compare, Operations.compare, looseEquals_string_comm]
  · simp only [comparisonOf, Machine.compare, Operations.compare, strictEquals_string_comm]

variable {expr1 expr2 : Condition Leaf}

/-- The operands in the other order, where the first is a string constant. -/
theorem evaluate_swapped
    (hop : op = .equal ∨ op = .strictEqual ∨ op = .notEqual ∨ op = .notStrictEqual)
    (h : expr1.isString = true) (flag : Bool) :
    (Condition.comparison op expr1 expr2 flag).evaluate machine =
      comparing machine op (expr2.evaluate machine) (expr1.evaluate machine) := by
  obtain ⟨s, hs⟩ : ∃ s, expr1.evaluate machine = pure (.primitive (.string s)) :=
    evaluate_of_isString h
  simp only [evaluate_comparison, comparing, hs, pure_bind, bind_assoc,
    comparisonOf_string_comm hop]

theorem preserves_of_isString (h : expr.isString = true) (i : Nat) :
    Preserves (fun world => machine.getLocal world i) (expr.evaluate machine) := by
  obtain ⟨s, hs⟩ : ∃ s, expr.evaluate machine = pure (.primitive (.string s)) :=
    evaluate_of_isString h
  rw [hs]
  exact Preserves.of_pure _

/-- A comparison with `null`, from either side. -/
theorem evaluate_null {F : machine.Value → Bool} {flag : Bool}
    (hF : ∀ v, machine.compare op (.primitive .null) v = pure (F v) ∧
      machine.compare op v (.primitive .null) = pure (F v)) :
    (expr1.isNull = true → (Condition.comparison op expr1 expr2 flag).evaluate machine =
      expr2.evaluate machine >>= fun v => pure (machine.boolean (F v))) ∧
    (expr2.isNull = true → (Condition.comparison op expr1 expr2 flag).evaluate machine =
      expr1.evaluate machine >>= fun v => pure (machine.boolean (F v))) := by
  constructor
  all_goals
    intro h
    simp only [Condition.evaluate, evaluate_of_isNull h, pure_bind, hF]

theorem compare_equal_null (v : machine.Value) :
    machine.compare .equal (.primitive .null) v = pure (machine.isNullish v) ∧
      machine.compare .equal v (.primitive .null) = pure (machine.isNullish v) := by
  simp only [Machine.compare, Operations.compare, looseEquals_null_left,
    looseEquals_null_right, and_self]

theorem compare_notEqual_null (v : machine.Value) :
    machine.compare .notEqual (.primitive .null) v = pure (!machine.isNullish v) ∧
      machine.compare .notEqual v (.primitive .null) = pure (!machine.isNullish v) := by
  simp only [Machine.compare, Operations.compare, looseEquals_null_left, looseEquals_null_right,
    pure_bind, and_self]

/-- **The code of every expression computes its value.** -/
theorem emitterSpec_emitNode (h : leaves.Correct machine) :
    ∀ expr : Condition Leaf, expr.FlagsSound leaves machine →
      EmitterSpec machine (emitNode leaves expr) (expr.evaluate machine)
  | .leaf l, _ => emitterSpec_emitLeaf h l
  | .constant node, _ => emitterSpec_emitLoad node.value
  | .logicalNot expr, hflags => emitterSpec_emitLogicalNot (emitterSpec_emitNode h expr hflags)
  | .logical op expr1 expr2, hflags =>
    emitterSpec_emitLogicalOp op (emitterSpec_emitNode h expr1 hflags.1)
      (emitterSpec_emitNode h expr2 hflags.2)
  | .comparison op expr1 expr2 flag, ⟨hflags1, hflags2, hlocal⟩ => by
    have h1 := emitterSpec_emitNode h expr1 hflags1
    have h2 := emitterSpec_emitNode h expr2 hflags2
    cases op with
    | equal =>
      rw [emitNode]
      split
      · next hnull =>
        rw [(evaluate_null compare_equal_null).1 hnull]
        exact emitterSpec_emitNullComparison (fun _ _ => rfl) h2
      · split
        · next hnull =>
          rw [(evaluate_null compare_equal_null).2 hnull]
          exact emitterSpec_emitNullComparison (fun _ _ => rfl) h1
        · split
          · next hstring =>
            rw [evaluate_swapped (by simp) hstring]
            exact emitterSpec_emitEqual h2 h1 (fun _ _ _ i _ => preserves_of_isString hstring i)
              (.inl rfl)
          · rw [evaluate_comparison]
            exact emitterSpec_emitEqual h1 h2 hlocal (.inl rfl)
    | strictEqual =>
      rw [emitNode]
      split
      · next hstring =>
        rw [evaluate_swapped (by simp) hstring]
        exact emitterSpec_emitEqual h2 h1 (fun _ _ _ i _ => preserves_of_isString hstring i)
          (.inr rfl)
      · rw [evaluate_comparison]
        exact emitterSpec_emitEqual h1 h2 hlocal (.inr rfl)
    | notEqual =>
      rw [emitNode]
      split
      · next hnull =>
        rw [(evaluate_null compare_notEqual_null).1 hnull]
        exact emitterSpec_emitNullComparison (F := fun v => !(machine.isNullish v))
          (fun _ _ => rfl) h2
      · split
        · next hnull =>
          rw [(evaluate_null compare_notEqual_null).2 hnull]
          exact emitterSpec_emitNullComparison (F := fun v => !(machine.isNullish v))
            (fun _ _ => rfl) h1
        · split
          · next hstring =>
            rw [evaluate_swapped (by simp) hstring]
            exact emitterSpec_emitNotEqual h2 h1 (fun _ _ _ i _ => preserves_of_isString hstring i)
              (.inl ⟨rfl, rfl⟩)
          · rw [evaluate_comparison]
            exact emitterSpec_emitNotEqual h1 h2 hlocal (.inl ⟨rfl, rfl⟩)
    | notStrictEqual =>
      rw [emitNode]
      split
      · next hstring =>
        rw [evaluate_swapped (by simp) hstring]
        exact emitterSpec_emitNotEqual h2 h1 (fun _ _ _ i _ => preserves_of_isString hstring i)
          (.inr ⟨rfl, rfl⟩)
      · rw [evaluate_comparison]
        exact emitterSpec_emitNotEqual h1 h2 hlocal (.inr ⟨rfl, rfl⟩)
    | less | greater | lessEq | greaterEq | inOperator =>
      rw [evaluate_comparison]
      exact emitterSpec_emitRelation h1 h2 hlocal _

end JavaScriptCore.Bytecompiler.Conditions
