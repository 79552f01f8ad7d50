import TaskVm.Proofs.Embedding

/-!
# Methods

A method of a receiver is a global with the name that the method table gives. For speed it is
looked up in a table of the natives among the globals, which is built when the first program
runs. Globals may be bound anew at any time after that, natives in the place of others or of
anything else, and the table has to keep up with it.
-/

namespace TaskVm

open Exec Relation

/-! ## The table and the globals -/

/-- Building the table anew makes it agree with the globals. -/
theorem NativeCache.found_build_iff (c : NativeCache) {globals : Globals} (h : globals.Lawful)
    (name : String) (id : NativeId) :
    (c.build globals).found name = some id ↔ globals.get? name = some (.native id) := by
  rw [found_build, nativesOf_iff h]

/-- The table of natives agrees with the globals whenever it says that it is valid, which it does
not before the machine has been warmed up. -/
structure Vm.Coherent (v : Vm) : Prop where
  lawful : v.globals.Lawful
  warm : v.natives.valid = true → v.warmedUp = true
  found : v.natives.valid = true → ∀ name id,
    v.natives.found name = some id ↔ v.globals.get? name = some (.native id)

/-- **A binding that the table does not learn of makes no native and unmakes none.** -/
theorem Vm.setGlobal_natives (v : Vm) (name : String) (x : Value) :
    (v.setGlobal name x).warmedUp = v.warmedUp ∧
    ((v.setGlobal name x).natives.valid = false ∨ (v.setGlobal name x).natives = v.natives ∧
      (v.warmedUp = true → ∀ id, x ≠ .native id ∧ v.globals.get? name ≠ some (.native id))) := by
  unfold Vm.setGlobal
  extract_lets isNative wasNative v'
  split
  · exact ⟨rfl, .inl rfl⟩
  · rename_i hquiet
    refine ⟨rfl, .inr ⟨rfl, fun hw id => ?_⟩⟩
    have hnone : (isNative x || wasNative) = false := by simpa [v', hw] using hquiet
    obtain ⟨hnew, hold⟩ := Bool.or_eq_false_iff.mp hnone
    constructor
    · rintro rfl
      cases hnew
    · intro hget
      simp [wasNative, hget, isNative] at hold

namespace Vm.Coherent

variable {v v' : Vm}

theorem of_same (h : v.Coherent) (hv : v.SameNames v') : v'.Coherent where
  lawful := hv.globals ▸ h.lawful
  warm hvalid := by
    rw [hv.warmedUp]
    exact h.warm (hv.natives ▸ hvalid)
  found hvalid := by
    rw [hv.globals, hv.natives]
    exact h.found (hv.natives ▸ hvalid)

/-- **A look-up finds the native that a global is**, if it is one, whether the table has to be
built for it or not. -/
theorem lookup_iff (h : v.Coherent) (name : String) (id : NativeId) :
    (v.natives.lookup v.globals name).1 = some id ↔ v.globals.get? name = some (.native id) := by
  unfold NativeCache.lookup
  dsimp only
  split
  · exact h.found ‹_› name id
  · exact v.natives.found_build_iff h.lawful name id

theorem look (h : v.Coherent) (hw : v.warmedUp = true) (name : String) :
    { v with natives := (v.natives.lookup v.globals name).2 }.Coherent := by
  refine ⟨h.lawful, fun _ => hw, fun _ => ?_⟩
  unfold NativeCache.lookup
  dsimp only
  split
  · exact h.found ‹_›
  · exact v.natives.found_build_iff h.lawful

theorem warmUp (h : v.Coherent) : v.warmUp.Coherent := by
  unfold Vm.warmUp
  split
  · exact h
  · exact ⟨h.lawful, fun _ => rfl, fun _ => v.natives.found_build_iff h.lawful⟩

theorem bind (h : v.Coherent) (name : String) (x : Value) : (v.setGlobal name x).Coherent := by
  have hglobals := v.setGlobal_globals name x
  obtain ⟨hwarm, hnatives⟩ := v.setGlobal_natives name x
  refine ⟨hglobals ▸ h.lawful.insert name x, ?_, ?_⟩
  · rw [hwarm]
    rcases hnatives with hinvalid | ⟨hsame, -⟩
    · rw [hinvalid]
      nofun
    · rw [hsame]
      exact h.warm
  · intro hvalid name' id
    rcases hnatives with hinvalid | ⟨hsame, hneither⟩
    · rw [hinvalid] at hvalid
      cases hvalid
    · rw [hsame] at hvalid ⊢
      rw [hglobals, h.lawful.get?_insert, h.found hvalid]
      split
      · rename_i heq
        subst heq
        obtain ⟨hnew, hold⟩ := hneither (h.warm hvalid) id
        simp [hnew, hold]
      · rfl

end Vm.Coherent

theorem Machine.create_coherent (hosts : Array HostFunction) (h : Heap) (id : VmId)
    (config : VmConfig) (dice : Dice) : (create hosts h id config dice).vm.Coherent := by
  have hnatives : (create hosts h id config dice).vm.natives.valid = false := rfl
  refine ⟨create_lawful hosts h id config dice, ?_, ?_⟩ <;> rw [hnatives] <;> nofun

/-- The table keeps up with the globals, whatever happens. -/
theorem stable_coherent (K : Heap → Heap → Prop) : Stable K fun _ => Vm.Coherent where
  quiet hp _ hv := hp.of_same hv
  heap hp _ := hp
  remember hp _ _ := hp
  bind hp := hp.bind
  look hp := hp.look
  warmUp hp := hp.warmUp

/-! ## Calling a method -/

/-- A method of a receiver stands for a native: the method table has it, and the native is the
global of that name. -/
def Vm.Method (v : Vm) (receiver : Value) (method : String) (id : NativeId) : Prop :=
  ∃ name, (ReceiverType.of? receiver).bind (·.method? method) = some name ∧
    v.globals.get? name = some (.native id)

/-- A turn has come to this heap and these operands, and has bound no global. -/
structure Turn.Comes (s : Turn) (heap : Heap) (stack : Array Value) (s' : Turn) : Prop where
  heap : s'.heap = heap
  task : s'.task = { s.task with stack }
  globals : s'.vm.globals = s.vm.globals

namespace Exec

variable {s : Turn} {receiver : Value} {method : String} {id : NativeId} {P args : Array Value}

theorem resolveMethod_ok (hc : s.vm.Coherent) (hm : s.vm.Method receiver method id) :
    ∃ natives, resolveMethod receiver method s =
      .ok id { s with vm := { s.vm with natives } } := by
  obtain ⟨name, hname, hglobal⟩ := hm
  refine ⟨(s.vm.natives.lookup s.vm.globals name).2, ?_⟩
  have hlookup := (hc.lookup_iff name id).mpr hglobal
  unfold resolveMethod
  dsimp only
  rw [hname]
  dsimp only
  rw [get_bind_apply, modify_bind_apply, hlookup]
  rfl

theorem resolveMethod_error (hc : s.vm.Coherent) (hm : ∀ id, ¬ s.vm.Method receiver method id) :
    ∃ natives, resolveMethod receiver method s =
      .error (.raised (.unknownMethod receiver.typeName method))
        { s with vm := { s.vm with natives } } := by
  unfold resolveMethod
  dsimp only
  cases hname : (ReceiverType.of? receiver).bind (·.method? method) with
  | none => exact ⟨s.vm.natives, rfl⟩
  | some name =>
    have hlookup : (s.vm.natives.lookup s.vm.globals name).1 = none := by
      refine Option.eq_none_iff_forall_ne_some.mpr fun id hid => hm id ⟨name, hname, ?_⟩
      exact (hc.lookup_iff name id).mp hid
    refine ⟨(s.vm.natives.lookup s.vm.globals name).2, ?_⟩
    dsimp only
    rw [get_bind_apply, modify_bind_apply, hlookup]
    rfl

/-- A method is unknown just when it stands for no native. -/
theorem resolveMethod_unknown (hc : s.vm.Coherent) :
    (∃ s', resolveMethod receiver method s =
      .error (.raised (.unknownMethod receiver.typeName method)) s') ↔
    ∀ id, ¬ s.vm.Method receiver method id := by
  constructor
  · rintro ⟨s', h⟩ id hm
    obtain ⟨natives, hok⟩ := resolveMethod_ok hc hm
    rw [hok] at h
    cases h
  · intro hm
    obtain ⟨natives, h⟩ := resolveMethod_error hc hm
    exact ⟨_, h⟩

/-- The arguments are the topmost operands. -/
theorem popMany_arguments (hs : s.task.stack = P ++ args) :
    ∃ s', popMany args.size s = .ok args.toList s' ∧ s'.hosts = s.hosts ∧ s'.vm = s.vm ∧
      s'.heap = s.heap ∧ s'.task = { s.task with stack := P } := by
  have hsize : s.task.stack.size - args.size = P.size := by
    rw [hs, Array.size_append, Nat.add_sub_cancel]
  have hle : args.size ≤ s.task.stack.size := by
    rw [hs, Array.size_append]
    exact Nat.le_add_left _ _
  have htake : s.task.stack.take P.size = P := by
    rw [hs]
    simp
  have hextract : (s.task.stack.extract P.size s.task.stack.size).toList = args.toList := by
    rw [hs]
    simp
  have h := popMany_ok s hle
  rw [hsize, htake, hextract] at h
  exact ⟨_, h, rfl, rfl, rfl, rfl⟩

theorem callNative_apply (id : NativeId) (vs : List Value) :
    callNative id vs s =
      match (s.heap.native id).call s.hosts vs s.heap with
      | .ok v heap => .ok v { s with
          heap, vm := { s.vm with profiler := s.vm.profiler.recordNativeCall } }
      | .error e heap => .error e { s with
          heap, vm := { s.vm with profiler := s.vm.profiler.recordNativeCall } } := by
  unfold callNative
  rw [modify_bind_apply, get_bind_apply, onHeap]
  dsimp only
  cases (s.heap.native id).call s.hosts vs s.heap <;> rfl

/-- **A method that stands for a native is that native**, called with the receiver and the
arguments. -/
theorem callValue_method (hc : s.vm.Coherent) (hs : s.task.stack = P ++ args)
    (hm : s.vm.Method receiver method id) :
    match (s.heap.native id).call s.hosts (receiver :: args.toList) s.heap with
    | .ok v heap => ∃ s', callValue (.boundMethod receiver method) args.size s = .ok ⟨⟩ s' ∧
        s.Comes heap (P.push v) s'
    | .error e heap => ∃ s', callValue (.boundMethod receiver method) args.size s = .error e s' ∧
        s.Comes heap P s' := by
  obtain ⟨natives, hresolve⟩ := resolveMethod_ok hc hm
  obtain ⟨s₂, hpop, hhosts, hvm, hheap, htask⟩ :=
    popMany_arguments (s := { s with vm := { s.vm with natives } }) hs
  have hglobals : s₂.vm.globals = s.vm.globals := by rw [hvm]
  have hcall := callNative_apply (s := s₂) id (receiver :: args.toList)
  rw [hhosts, hheap] at hcall
  rw [callValue, bind_ok hresolve, bind_ok hpop]
  cases hnative : (s.heap.native id).call s.hosts (receiver :: args.toList) s.heap with
  | ok v heap =>
    dsimp only
    rw [hnative] at hcall
    refine ⟨_, bind_ok hcall, rfl, ?_, hglobals⟩
    show s₂.task.push v = _
    rw [htask]
    rfl
  | error e heap =>
    dsimp only
    rw [hnative] at hcall
    exact ⟨_, bind_error hcall, rfl, htask, hglobals⟩

/-- A method that stands for no native leaves the arguments where they are. -/
theorem callValue_unknown (hc : s.vm.Coherent) (argc : Nat)
    (hm : ∀ id, ¬ s.vm.Method receiver method id) :
    ∃ s', callValue (.boundMethod receiver method) argc s =
      .error (.raised (.unknownMethod receiver.typeName method)) s' ∧
      s.Comes s.heap s.task.stack s' := by
  obtain ⟨natives, hresolve⟩ := resolveMethod_error hc hm
  rw [callValue]
  exact ⟨_, bind_error hresolve, rfl, rfl, rfl⟩

end Exec

namespace Machine

variable {m : Machine} {task : Task} {P args : Array Value} {receiver : Value} {method : String}
  {s s' : Turn}

/-- The next tick calls a method of a receiver, with the topmost operands as arguments. The turn
is `s` when the instruction has been read and the method taken off the stack. -/
structure CallsMethod (m : Machine) (task : Task) (P args : Array Value) (receiver : Value)
    (method : String) (s : Turn) : Prop where
  read : ∃ s₀ s₁, m.Executes task .call s₀ ∧ readByte s₀ = .ok args.size s₁ ∧
    pop s₁ = .ok (.boundMethod receiver method) s
  operands : task.stack = (P ++ args).push (.boundMethod receiver method)

namespace CallsMethod

/-- Reading the instruction changes nothing that its outcome depends on. -/
theorem reads (hc : m.CallsMethod task P args receiver method s) :
    s.hosts = m.hosts ∧ s.heap = m.heap ∧ m.vm.SameNames s.vm ∧ s.task.stack = P ++ args := by
  obtain ⟨s₀, s₁, hs₀, hargc, hpop⟩ := hc.read
  have hscans : (m.turn task).Scans s₁ := hs₀.scans.trans (scans_readByte hargc)
  obtain ⟨-, rfl⟩ := pop_eq_ok hpop
  refine ⟨hscans.hosts, hscans.heap, hscans.names, ?_⟩
  show s₁.task.stack.pop = _
  rw [hscans.stack, show (m.turn task).task.stack = _ from hc.operands, Array.pop_push]

theorem instruction_eq (hc : m.CallsMethod task P args receiver method s) :
    instruction (m.turn task) =
      (callValue (.boundMethod receiver method) args.size >>= fun _ => pure .next) s := by
  obtain ⟨s₀, s₁, hs₀, hargc, hpop⟩ := hc.read
  rw [hs₀.instruction_eq]
  unfold execute
  dsimp only
  rw [bind_ok hargc, bind_ok hpop]

/-- Reading the call does not make the table wrong. -/
theorem coherent (hc : m.CallsMethod task P args receiver method s) (hm : m.vm.Coherent) :
    s.vm.Coherent :=
  hm.of_same hc.reads.2.2.1

/-- Nor does it change what methods stand for. -/
theorem method_iff (hc : m.CallsMethod task P args receiver method s) (id : NativeId) :
    s.vm.Method receiver method id ↔ m.vm.Method receiver method id := by
  rw [Vm.Method, Vm.Method, hc.reads.2.2.1.globals]

/-- A method that stands for a native is that native. -/
theorem called (hc : m.CallsMethod task P args receiver method s) (hm : m.vm.Coherent)
    {id : NativeId} (hid : m.vm.Method receiver method id) :
    match (m.heap.native id).call m.hosts (receiver :: args.toList) m.heap with
    | .ok v heap => ∃ s', instruction (m.turn task) = .ok .next s' ∧ s.Comes heap (P.push v) s'
    | .error e heap => ∃ s', instruction (m.turn task) = .error e s' ∧ s.Comes heap P s' := by
  obtain ⟨hhosts, hheap, -, hstack⟩ := hc.reads
  have hcall := callValue_method (hc.coherent hm) hstack ((hc.method_iff id).mpr hid)
  rw [hhosts, hheap] at hcall
  rw [hc.instruction_eq]
  cases hnative : (m.heap.native id).call m.hosts (receiver :: args.toList) m.heap with
  | ok v heap =>
    rw [hnative] at hcall
    obtain ⟨s', hs', hcomes⟩ := hcall
    exact ⟨s', bind_ok hs', hcomes⟩
  | error e heap =>
    rw [hnative] at hcall
    obtain ⟨s', hs', hcomes⟩ := hcall
    exact ⟨s', bind_error hs', hcomes⟩

/-- A method that stands for none is unknown, and the arguments stay where they are. -/
theorem unknown (hc : m.CallsMethod task P args receiver method s) (hm : m.vm.Coherent)
    (hno : ∀ id, ¬ m.vm.Method receiver method id) :
    ∃ s', instruction (m.turn task) =
      .error (.raised (.unknownMethod receiver.typeName method)) s' ∧
      s.Comes m.heap (P ++ args) s' := by
  obtain ⟨-, hheap, -, hstack⟩ := hc.reads
  obtain ⟨s', hs', hcomes⟩ := callValue_unknown (hc.coherent hm) args.size
    fun id hid => hno id ((hc.method_iff id).mp hid)
  rw [hheap, hstack] at hcomes
  exact ⟨s', hc.instruction_eq.trans (bind_error hs'), hcomes⟩

end CallsMethod

/-- The call of a method in the next tick, with given operands, if there is one. -/
def callsMethod? (m : Machine) (P args : Array Value) (receiver : Value) (method : String) :
    Option (Task × Turn) :=
  match m.opcode? with
  | some (task, .call, s₀) =>
    match readByte s₀ with
    | .ok argc s₁ =>
      match pop s₁ with
      | .ok callee s =>
        if argc = args.size ∧ callee = .boundMethod receiver method ∧
            task.stack = (P ++ args).push (.boundMethod receiver method) then some (task, s)
        else none
      | .error _ _ => none
    | .error _ _ => none
  | _ => none

theorem callsMethod_of_callsMethod? (h : m.callsMethod? P args receiver method = some (task, s)) :
    m.CallsMethod task P args receiver method s := by
  unfold callsMethod? at h
  split at h
  · rename_i s₀ hop
    split at h
    · rename_i argc s₁ hargc
      split at h
      · rename_i callee s₂ hpop
        split at h
        · rename_i hsame
          obtain ⟨rfl, rfl, hoperands⟩ := hsame
          cases h
          exact ⟨⟨s₀, s₁, executes_of_opcode? hop, hargc, hpop⟩, hoperands⟩
        · cases h
      · cases h
    · cases h
  · cases h

end Machine

/-- **The table of a machine in use keeps up with its globals.** -/
theorem Host.Reached.coherent {w : Host} (hw : Reached Heap.Anyhow w) {i : Nat}
    (hi : i < w.vms.size) {m : Machine} (hm : (w.machine i).Uses Heap.Anyhow m) :
    m.vm.Coherent := by
  refine (hm.keeps (stable_coherent _) (Reached.functions hw) ?_).2
  rw [machine_vm hi]
  exact Reached.all hw (stable_coherent _) Machine.create_coherent _ (Array.getElem_mem hi)

/-- **A method is the native that its name stands for at the moment of the call.** -/
theorem Host.Reached.methods_current {w : Host} (hw : Reached Heap.Anyhow w) {i : Nat}
    (hi : i < w.vms.size) {m : Machine} (hm : (w.machine i).Uses Heap.Anyhow m) {task : Task}
    {P args : Array Value} {receiver : Value} {method : String} {s : Turn}
    (hc : m.CallsMethod task P args receiver method s) :
    (∀ name id, (m.vm.natives.lookup m.vm.globals name).1 = some id ↔
      m.vm.globals.get? name = some (.native id)) ∧
    (∀ id, m.vm.Method receiver method id →
      match (m.heap.native id).call m.hosts (receiver :: args.toList) m.heap with
      | .ok v heap => ∃ s', instruction (m.turn task) = .ok .next s' ∧ s.Comes heap (P.push v) s'
      | .error e heap => ∃ s', instruction (m.turn task) = .error e s' ∧ s.Comes heap P s') ∧
    ((∀ id, ¬ m.vm.Method receiver method id) →
      ∃ s', instruction (m.turn task) =
        .error (.raised (.unknownMethod receiver.typeName method)) s' ∧
        s.Comes m.heap (P ++ args) s') ∧
    ((∃ s', resolveMethod receiver method s =
        .error (.raised (.unknownMethod receiver.typeName method)) s') ↔
      ∀ id, ¬ m.vm.Method receiver method id) := by
  have hcoherent := Reached.coherent hw hi hm
  refine ⟨hcoherent.lookup_iff, fun id => hc.called hcoherent, hc.unknown hcoherent, ?_⟩
  rw [resolveMethod_unknown (hc.coherent hcoherent)]
  exact forall_congr' fun id => not_congr (hc.method_iff id)

/-- A string is asked for its length. -/
def asking : Heap where
  chunks := #[{
    code := Machine.assemble [(.constant, [0, 0]), (.call, [0]), (.ret, [])]
    constants := #[.boundMethod (.string "abc") "len"] }]

/-- A machine to ask it. -/
def asked : Host := ({ heap := asking } : Host).add {}

/-- A machine that has been warmed up, and then has got another native for `len`. -/
def renamed : Machine :=
  { asked.machine 0 with vm := (asked.machine 0).vm.warmUp }.define "len" (.native 38)

/-- Asked again, it gives the type of the string. -/
theorem renamed_method : ∃ m task s s', Host.Reached Heap.Anyhow asked ∧ 0 < asked.vms.size ∧
    (asked.machine 0).Uses Heap.Anyhow m ∧
    m.CallsMethod task #[] #[] (.string "abc") "len" s ∧ m.vm.natives.valid = false ∧
    instruction (m.turn task) = .ok .next s' ∧ s'.task.stack = #[.string "string"] := by
  have hrun : ((renamed.load 0).2.vm.warmedUp &&
      let m := (renamed.load 0).2.tick.machine.tick.machine
      !m.vm.natives.valid && m.vm.globals.get? "len" == some (.native 38) &&
      (m.callsMethod? #[] #[] (.string "abc") "len").isSome &&
      match (m.heap.native 38).call m.hosts [.string "abc"] m.heap with
      | .ok v _ => v == .string "string"
      | .error _ _ => false) = true := by
    decide +kernel
  obtain ⟨hwarm, hrun⟩ := Bool.and_eq_true_iff.mp hrun
  dsimp only at hrun
  have hreached : Host.Reached Heap.Anyhow asked :=
    (ReflTransGen.single (.heap trivial)).tail (Host.step_add (by simp) {} {})
  have hused : (asked.machine 0).Uses Heap.Anyhow
      (renamed.load 0).2.tick.machine.tick.machine :=
    ((((ReflTransGen.single .warmUp).tail (.define "len" (.native 38))).tail (.load rfl 0)).tail
      (.tick hwarm)).tail (.tick (Machine.tick_warm hwarm))
  -- From here on only what was read off the machine is needed.
  generalize (renamed.load 0).2.tick.machine.tick.machine = m at hrun hused
  simp only [Bool.and_eq_true, Bool.not_eq_true', beq_iff_eq, Option.isSome_iff_exists] at hrun
  obtain ⟨⟨⟨hvalid, hglobal⟩, ⟨task, s⟩, hcalls⟩, hnative⟩ := hrun
  have hc := Machine.callsMethod_of_callsMethod? hcalls
  have hmethod := (Host.Reached.methods_current hreached Nat.zero_lt_one hused hc).2.1 38
    ⟨"len", by decide, hglobal⟩
  dsimp only at hmethod hnative
  cases hcall : (m.heap.native 38).call m.hosts [.string "abc"] m.heap with
  | error e heap =>
    rw [hcall] at hnative
    cases hnative
  | ok v heap =>
    rw [hcall] at hnative hmethod
    obtain ⟨s', hs', hcomes⟩ := hmethod
    refine ⟨m, task, s, s', hreached, Nat.zero_lt_one, hused, hc, hvalid, hs', ?_⟩
    rw [hcomes.task]
    exact congrArg (#[].push ·) (beq_iff_eq.mp hnative)

end TaskVm
