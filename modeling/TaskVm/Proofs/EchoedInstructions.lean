import TaskVm.Proofs.EchoedChannels

/-!
# Instructions in other guises

What an instruction turns into text is among its operands, and can be said before it is
executed. An instruction that turns no task into text does the same in every guise.
-/

namespace TaskVm

open Exec

namespace Exec

variable {α β γ δ : Type} {ρ : TaskId → TaskId} {s s' : Turn}

/-! ## What is turned into text -/

/-- The keys among keys and values that alternate. -/
def keysOf : List Value → List Value
  | k :: _ :: rest => k :: keysOf rest
  | _ => []

/-- The operands that an opcode turns into text, as far as it does. -/
def told : Opcode → Exec (List Value)
  | .print | .toString | .channelNew | .mapGet | .mapDelete => do pure [← pop]
  | .mapSet => do
    let _ ← pop
    pure [← pop]
  | .concat => do
    let b ← pop
    let a ← pop
    pure [a, b]
  | .add => do
    let b ← pop
    let a ← pop
    -- What is added to a string is turned into one.
    match a, b with
    | .string _, _ | _, .string _ => pure [a, b]
    | _, _ => pure []
  | .getIndex => do
    let key ← pop
    match ← pop with
    | .map _ => pure [key]
    | _ => pure []
  | .setIndex => do
    let _ ← pop
    let key ← pop
    match ← pop with
    | .map _ => pure [key]
    | _ => pure []
  | .newMap | .buildMap => do pure (keysOf (← popMany ((← readWord) * 2)))
  | _ => pure []

/-- The native that the call of a value comes down to, and its arguments. -/
def nativeOf (callee : Value) (argc : Nat) : Exec (Option (NativeId × List Value)) := do
  match callee with
  | .native n => pure (some (n, ← popMany argc))
  | .boundMethod receiver method =>
    let n ← resolveMethod receiver method
    pure (some (n, receiver :: (← popMany argc)))
  | _ => pure none

/-- The native that a call instruction calls, and with what. -/
def nativeCall : Exec (Option (NativeId × List Value)) := do
  let argc ← readByte
  nativeOf (← pop) argc

/-- None of the values that a computation comes to has the number of a task in its text. -/
def Quiet (x : Exec (List Value)) (s : Turn) : Prop :=
  ∀ vs s', x s = .ok vs s' → ∀ v ∈ vs, ¬s'.heap.Mentions v

theorem Quiet.next {x : Exec α} {f : α → Exec (List Value)} {a : α} (h : Quiet (x >>= f) s)
    (hx : x s = .ok a s') : Quiet (f a) s' := fun vs s'' hf =>
  h vs s'' (by rw [bind_ok hx]; exact hf)

theorem Quiet.now {vs : List Value} (h : Quiet (pure vs) s) : ∀ v ∈ vs, ¬s.heap.Mentions v :=
  h vs s rfl

/-- An opcode turns no task into text, and calls no native that does. -/
structure Discreet (op : Opcode) (s : Turn) : Prop where
  quiet : Quiet (told op) s
  native : op = .call → ∀ n args s', nativeCall s = .ok (some (n, args)) s' →
    (s'.heap.native n).Discreet s'.hosts args s'.heap

/-! ## Instructions that may turn something into text -/

section

variable {Q : γ → δ → Prop}

/-- The same computation first, in both, and then go by what it has come to. -/
theorem echoAt_bind {x : Exec α} {f : α → Exec γ} {f' : α → Exec δ} (hx : Echo ρ x)
    (hf : ∀ a s', x s = .ok a s' → EchoesAt ρ Q (f a) (f' a) s') :
    EchoesAt ρ Q (x >>= f) (x >>= f') s :=
  echoesAt_bind (hx s) fun a _ s' hs hq => hq ▸ hf a s' hs

end

theorem echoAt_popKey (hq : Quiet (do pure [← pop]) s) :
    EchoesAt ρ (· = ·) popKey popKey s := by
  refine echoAt_bind echo_pop fun v s' hs => echoesAt_get_bind fun g hg => ?_
  rw [show (s'.guise ρ g).heap = s'.heap.guise ρ g.memory.chunks from rfl,
    Heap.mapKey_guise hg.code ((hq.next hs).now v List.mem_cons_self)]
  exact echo_pure _ s'

theorem echoAt_binary {op : Heap → Value → Value → Except RuntimeError Value}
    (hop : ∀ (b a : Value) (s₁ s₂ : Turn), pop s = .ok b s₁ → pop s₁ = .ok a s₂ →
      ∀ chunks, SameCode chunks s₂.heap.chunks →
        op (s₂.heap.guise ρ chunks) a b = op s₂.heap a b) :
    EchoesAt ρ (· = ·) (binary op) (binary op) s := by
  refine echoAt_bind echo_pop fun b s₁ h₁ => echoAt_bind echo_pop fun a s₂ h₂ => ?_
  refine echoesAt_get_bind fun g hg => ?_
  rw [show (s₂.guise ρ g).heap = s₂.heap.guise ρ g.memory.chunks from rfl,
    hop b a s₁ s₂ h₁ h₂ _ hg.code]
  exact echo_bind (echo_ofExcept _) (fun _ => echo_push _) s₂

theorem entriesOf_guise {h : Heap} {chunks : Array Chunk} (hcs : SameCode chunks h.chunks) :
    ∀ {flat : List Value}, (∀ k ∈ keysOf flat, ¬h.Mentions k) →
      entriesOf (h.guise ρ chunks) flat = entriesOf h flat
  | [], _ | [_], _ => rfl
  | k :: v :: rest, hquiet => by
    have hrest : entriesOf _ rest = _ := entriesOf_guise hcs fun k' hk' =>
      hquiet k' (List.mem_cons_of_mem _ hk')
    simp only [entriesOf]
    rw [Heap.mapKey_guise hcs (hquiet k List.mem_cons_self), hrest]

theorem echoAt_pushMap {pairs : Nat} (hq : Quiet (do pure (keysOf (← popMany (pairs * 2)))) s) :
    EchoesAt ρ (· = ·) (pushMap pairs) (pushMap pairs) s := by
  refine echoAt_bind (echo_popMany _) fun flat s' hs => echoesAt_get_bind fun g hg => ?_
  dsimp only
  rw [show (s'.guise ρ g).heap = s'.heap.guise ρ g.memory.chunks from rfl,
    entriesOf_guise hg.code (hq.next hs).now]
  exact echo_bind (echo_newMap _) (fun _ => echo_push _) s'

/-- A call does the same if it calls no native that turns tasks into text. -/
theorem echoAt_callValue (hρ : Renumbers ρ) {callee : Value} {argc : Nat}
    (hd : ∀ n args s', nativeOf callee argc s = .ok (some (n, args)) s' →
      (s'.heap.native n).Discreet s'.hosts args s'.heap) :
    EchoesAt ρ (· = ·) (callValue callee argc) (callValue callee argc) s := by
  unfold callValue
  unfold nativeOf at hd
  cases callee with
  | closure c => exact echo_callClosure c argc s
  | native n =>
    refine echoAt_bind (echo_popMany argc) fun args s₁ h₁ => ?_
    have hnative := hd n args s₁ (bind_ok h₁)
    exact echoesAt_bind (echoAt_callNative hρ hnative) fun v v' s₂ _ hv => hv ▸ echo_push v s₂
  | boundMethod receiver method =>
    refine echoAt_bind (echo_resolveMethod receiver method) fun n s₁ h₁ => ?_
    refine echoAt_bind (echo_popMany argc) fun args s₂ h₂ => ?_
    have hnative := hd n (receiver :: args) s₂ ((bind_ok h₁).trans (bind_ok h₂))
    exact echoesAt_bind (echoAt_callNative hρ hnative) fun v v' s₃ _ hv => hv ▸ echo_push v s₃
  | _ => exact echoes_raise _ s

theorem echoAt_setIndex (hq : Quiet (told .setIndex) s) :
    EchoesAt ρ (· = ·) (execute .setIndex) (execute .setIndex) s := by
  refine echoAt_bind echo_pop fun v s₁ h₁ => echoAt_bind echo_pop fun key s₂ h₂ => ?_
  refine echoAt_bind echo_pop fun collection s₃ h₃ g hg => ?_
  have hkey : (∃ i, collection = .map i) → ¬s₃.heap.Mentions key := by
    rintro ⟨i, rfl⟩
    exact (((hq.next h₁).next h₂).next h₃).now key List.mem_cons_self
  rw [get_bind_apply, get_bind_apply,
    show (s₃.guise ρ g).heap = s₃.heap.guise ρ g.memory.chunks from rfl,
    Heap.setIndex_guise hg.code v hkey]
  cases hset : s₃.heap.setIndex collection key v with
  | error e => exact .error hg
  | ok heap =>
    have hkept : g.Fits ρ { s₃ with heap } := hg.of_chunks (Heap.setIndex_collects hset).chunks
    exact echo_bind (echo_push v) (fun _ => echo_pure Flow.next) { s₃ with heap } g hkept

/-- The opcodes that may turn an operand into text. -/
def tells : Opcode → Bool
  | .print | .toString | .channelNew | .concat | .add | .getIndex | .setIndex | .newMap | .buildMap
  | .mapGet | .mapSet | .mapDelete | .call => true
  | _ => false

/-- The others have nothing to tell. -/
theorem Discreet.of_not_tells {op : Opcode} (hop : tells op = false) : Discreet op s where
  quiet := by
    have htold : told op = pure [] := by
      cases op
      case print | toString | channelNew | concat | add | getIndex | setIndex | newMap | buildMap |
        mapGet | mapSet | mapDelete | call => nomatch hop
      all_goals rfl
    rw [htold]
    rintro vs s' ⟨⟩ v hv
    cases hv
  native := by
    rintro rfl
    cases hop

/-- The others do the same in every guise. -/
theorem echo_execute (hρ : Renumbers ρ) {op : Opcode} (hop : tells op = false) :
    Echo ρ (execute op) := by
  cases op
  case print | toString | channelNew | concat | add | getIndex | setIndex | newMap | buildMap |
    mapGet | mapSet | mapDelete | call => nomatch hop
  all_goals
    unfold execute
    dsimp only
    -- The primitives an instruction is made of, each with its own lemma.
    repeat' first
      | with_reducible exact echo_pure _
      | with_reducible exact echoes_raise _
      | with_reducible exact echo_invalid _
      | with_reducible exact echo_ofExcept _
      | with_reducible exact echo_push _
      | with_reducible exact echo_pop
      | with_reducible exact echo_popMany _
      | with_reducible exact echo_peek
      | with_reducible exact echo_readByte
      | with_reducible exact echo_readWord
      | with_reducible exact echo_readOffset
      | with_reducible exact echo_readName
      | with_reducible exact echo_constant _
      | with_reducible exact echo_jump _
      | with_reducible exact echo_localIndex _
      | with_reducible exact echo_setSlot _ _
      | with_reducible exact echo_pushLocal _
      | with_reducible exact echo_readUpvalue
      | with_reducible exact echo_readCell hρ _
      | with_reducible exact echo_writeCell hρ _ _
      | with_reducible exact echo_globalSlot _
      | with_reducible exact echo_setGlobal _ _
      | with_reducible exact echo_binary fun _ _ _ _ _ => rfl
      | with_reducible exact echo_equality hρ _
      | with_reducible exact echo_ordering _
      | with_reducible exact echo_makeClosure
      | with_reducible exact echo_leaveFrame _
      | with_reducible exact echo_pushArray _
      | with_reducible exact echo_pushFirst _ _
      | with_reducible exact echo_nextItem
      | with_reducible exact echo_endIteration
      | with_reducible exact echo_dropHandler
      | with_reducible exact echo_tryBegin
      | with_reducible exact echo_tryEnd
      | with_reducible exact echo_spawn hρ _ _
      | with_reducible exact echo_popChannel
      | with_reducible exact echo_channelSend hρ _ _
      | with_reducible exact echo_channelReceive hρ _
      | with_reducible exact echo_channelClose hρ _
      | with_reducible exact echo_selectOperands
      | with_reducible exact echo_select hρ _ _
      | with_reducible refine echo_get_bind (fun _ _ => rfl) fun _ => ?_
      | with_reducible refine echo_bind ?_ fun _ => ?_
      | split
  case iterStart => exact echoes_modifyTask fun _ => rfl

/-- **An instruction that turns no task into text does the same in every guise.** -/
theorem echoAt_execute (hρ : Renumbers ρ) {op : Opcode} (hd : Discreet op s) :
    EchoesAt ρ (· = ·) (execute op) (execute op) s := by
  obtain ⟨hq, hnative⟩ := hd
  -- Only the opcodes below write a value as text or look one up by it, and need what the turn's
  -- discretion says of the operands; the rest echo from every turn.
  cases op
  case print =>
    refine echoAt_bind echo_pop fun v s' hs => echoesAt_get_bind fun g hg => ?_
    rw [show (s'.guise ρ g).heap = s'.heap.guise ρ g.memory.chunks from rfl,
      Heap.display_guise hg.code ((hq.next hs).now v List.mem_cons_self)]
    exact echo_bind (echo_writeLine _) (fun _ => echo_pure _) s'
  case toString =>
    refine echoAt_bind echo_pop fun v s' hs => echoesAt_get_bind fun g hg => ?_
    rw [show (s'.guise ρ g).heap = s'.heap.guise ρ g.memory.chunks from rfl,
      Heap.display_guise hg.code ((hq.next hs).now v List.mem_cons_self)]
    exact echo_bind (echo_push _) (fun _ => echo_pure _) s'
  case channelNew =>
    refine echoAt_bind echo_pop fun v s' hs => echoesAt_get_bind fun g hg => ?_
    have hcapacity : capacityOf (s'.guise ρ g).heap v = capacityOf s'.heap v := by
      unfold capacityOf
      rw [show (s'.guise ρ g).heap = s'.heap.guise ρ g.memory.chunks from rfl,
        Heap.display_guise hg.code ((hq.next hs).now v List.mem_cons_self)]
    rw [hcapacity]
    refine echo_bind (echo_ofExcept _) (fun capacity => ?_) s'
    refine echo_bind (echo_newChannel capacity) fun c => ?_
    exact echo_bind (echo_push _) fun _ => echo_pure _
  case concat =>
    refine echoesAt_bind (echoAt_binary fun b a s₁ s₂ h₁ h₂ chunks hcs => ?_)
      fun _ _ s' _ _ => echo_pure _ s'
    have hquiet := ((hq.next h₁).next h₂).now
    rw [Heap.concat_guise hcs (hquiet a (by simp)) (hquiet b (by simp))]
  case add =>
    refine echoesAt_bind (echoAt_binary fun b a s₁ s₂ h₁ h₂ chunks hcs => ?_)
      fun _ _ s' _ _ => echo_pure _ s'
    refine Heap.add_guise hcs fun hstring => ?_
    -- A sum writes its operands only where one of them is a string.
    have hquiet := (hq.next h₁).next h₂
    have hboth : Quiet (pure [a, b]) s₂ := by
      rcases hstring with ⟨s, rfl⟩ | ⟨s, rfl⟩
      · exact hquiet
      · cases a <;> exact hquiet
    exact ⟨hboth.now a (by simp), hboth.now b (by simp)⟩
  case getIndex =>
    refine echoesAt_bind (echoAt_binary fun key collection s₁ s₂ h₁ h₂ chunks hcs => ?_)
      fun _ _ s' _ _ => echo_pure _ s'
    refine Heap.index_guise hcs ?_
    rintro ⟨i, rfl⟩
    exact ((hq.next h₁).next h₂).now key List.mem_cons_self
  case setIndex => exact echoAt_setIndex hq
  case newMap | buildMap =>
    refine echoAt_bind echo_readWord fun pairs s' hs => ?_
    exact echoesAt_bind (echoAt_pushMap (hq.next hs)) fun _ _ s' _ _ => echo_pure _ s'
  case mapGet =>
    refine echoesAt_bind (echoAt_popKey hq) fun key _ s' _ hkey => ?_
    subst hkey
    exact echo_bind echo_pop (fun v => echo_bind (echo_ofExcept _) fun m =>
      echo_get_bind (fun _ _ => rfl) fun _ => echo_bind (echo_ofExcept _) fun w =>
        echo_bind (echo_push w) fun _ => echo_pure _) s'
  case mapSet =>
    refine echoAt_bind echo_pop fun v s₁ h₁ => ?_
    refine echoesAt_bind (echoAt_popKey (hq.next h₁)) fun key _ s' _ hkey => ?_
    subst hkey
    exact echo_bind echo_pop (fun w => echo_bind (echo_ofExcept _) fun m =>
      echo_get_bind (fun _ _ => rfl) fun _ => echo_bind (echo_setMap m _) fun _ =>
        echo_bind (echo_push v) fun _ => echo_pure _) s'
  case mapDelete =>
    refine echoesAt_bind (echoAt_popKey hq) fun key _ s' _ hkey => ?_
    subst hkey
    exact echo_bind echo_pop (fun v => echo_bind (echo_ofExcept _) fun m =>
      echo_get_bind (fun _ _ => rfl) fun _ => echo_bind (echo_ofExcept _) fun w =>
        echo_bind (echo_setMap m _) fun _ => echo_bind (echo_push w) fun _ => echo_pure _) s'
  case call =>
    refine echoAt_bind echo_readByte fun argc s₁ h₁ => echoAt_bind echo_pop fun callee s₂ h₂ => ?_
    -- What is known of the natives at the opcode is about the turn before the operand and the
    -- callee are read off, so it is carried across both reads.
    have hcallee : ∀ n args s', nativeOf callee argc s₂ = .ok (some (n, args)) s' →
        (s'.heap.native n).Discreet s'.hosts args s'.heap := fun n args s' h =>
      hnative rfl n args s' ((bind_ok h₁).trans ((bind_ok h₂).trans h))
    exact echoesAt_bind (echoAt_callValue hρ hcallee) fun _ _ s' _ _ => echo_pure _ s'
  all_goals exact echo_execute hρ rfl s

end Exec

end TaskVm
