import TaskVm.Proofs.Renumbering
import TaskVm.Proofs.Growth

/-!
# Where the number of a task shows

A program can see a task's number in one way only: by turning a task into text. Whether two
tasks are the same, and everything else that is done with values, comes out the same when all
tasks have got other numbers. This module shows it of comparing, indexing and printing, and of
the builtins, and says of each builtin which of its operands it turns into text.
-/

namespace TaskVm

namespace Heap

variable {ρ : TaskId → TaskId} {h : Heap} {cs : Array Chunk}

/-! ## Texts -/

/-- The text of a value has the number of a task in it: the value is a task, or a collection in
which there is one. -/
inductive Mentions (h : Heap) : Value → Prop where
  | task (i : HandleId) : Mentions h (.task i)
  | element {i : ArrayId} {v : Value} (hv : v ∈ (h.array i).toList) (hm : Mentions h v) :
      Mentions h (.array i)
  | entry {i : MapId} {e : String × Value} (he : e ∈ (h.map i).toList) (hm : Mentions h e.2) :
      Mentions h (.map i)

theorem leafText_guise {style : TextStyle} (hstyle : style ≠ .debug) {v : Value}
    (hv : ¬h.Mentions v) : (h.guise ρ cs).leafText style v = h.leafText style v := by
  cases style with
  | debug => exact absurd rfl hstyle
  | display | nested =>
    cases v with
    | task i => exact absurd (.task i) hv
    | _ => rfl

theorem textWithin_guise {limit : Nat} : ∀ {style : TextStyle} {around : List Value} {v : Value},
    style ≠ .debug → ¬h.Mentions v →
    (h.guise ρ cs).textWithin limit style around v = h.textWithin limit style around v := by
  induction limit with
  | zero => exact fun _ _ => rfl
  | succ limit ih =>
    intro style around v hstyle hv
    have hinner : style.inner ≠ .debug := by
      cases style with
      | debug => exact absurd rfl hstyle
      | _ => exact nofun
    cases v with
    | array i =>
      have hparts : (h.array i).toList.map
            ((h.guise ρ cs).textWithin limit style.inner (.array i :: around)) =
          (h.array i).toList.map (h.textWithin limit style.inner (.array i :: around)) :=
        List.map_congr_left fun w hw => ih hinner fun hm => hv (.element hw hm)
      simp only [textWithin]
      rw [show (h.guise ρ cs).array i = h.array i from rfl, hparts]
    | map i =>
      have hparts : ((h.map i).toList.map fun e => keyText style e.1 ++ ": " ++
            (h.guise ρ cs).textWithin limit style.inner (.map i :: around) e.2) =
          (h.map i).toList.map fun e => keyText style e.1 ++ ": " ++
            h.textWithin limit style.inner (.map i :: around) e.2 :=
        List.map_congr_left fun e he => by rw [ih hinner fun hm => hv (.entry he hm)]
      simp only [textWithin]
      rw [show (h.guise ρ cs).map i = h.map i from rfl, hparts]
    | boundMethod receiver method =>
      simp only [textWithin, if_neg hstyle]
      exact leafText_guise hstyle hv
    | task i => exact absurd (.task i) hv
    | _ => exact leafText_guise hstyle hv

theorem deepest_guise (hcs : SameCode cs h.chunks) : (h.guise ρ cs).deepest = h.deepest := by
  have hblank : ∀ (cs : Array Chunk) (d : Nat),
      cs.foldl (fun d c => c.constants.foldl (fun d v => max d v.depth) d) d =
        (cs.map Chunk.blank).foldl (fun d c => c.constants.foldl (fun d v => max d v.depth) d) d :=
    fun cs d => by rw [Array.foldl_map]; rfl
  unfold deepest
  rw [hblank h.chunks, hblank (h.guise ρ cs).chunks]
  show Array.foldl _ _ (cs.map Chunk.blank) = _
  rw [hcs]
  rfl

theorem display_guise (hcs : SameCode cs h.chunks) {v : Value} (hv : ¬h.Mentions v) :
    (h.guise ρ cs).display v = h.display v := by
  have hlimit : (h.guise ρ cs).textLimit v = h.textLimit v := by
    unfold textLimit
    rw [deepest_guise hcs]
    rfl
  rw [display, display, hlimit, textWithin_guise (by decide) hv]

theorem mapKey_guise (hcs : SameCode cs h.chunks) {v : Value} (hv : ¬h.Mentions v) :
    (h.guise ρ cs).mapKey v = h.mapKey v := by
  cases v with
  | string s => rfl
  | _ => exact display_guise hcs hv

theorem concat_guise (hcs : SameCode cs h.chunks) {a b : Value} (ha : ¬h.Mentions a)
    (hb : ¬h.Mentions b) : (h.guise ρ cs).concat a b = h.concat a b := by
  rw [concat, concat, display_guise hcs ha, display_guise hcs hb]

/-! ## Comparisons -/

theorem sameHead_guise (hcs : SameCode cs h.chunks) (s t : Template) :
    (h.guise ρ cs).sameHead s t = h.sameHead s t := by
  rw [sameHead, sameHead, code_guise hcs, code_guise hcs]

/-- **Tasks with other numbers are equal when they were before.** -/
theorem equalWithin_guise (hρ : Renumbers ρ) (hcs : SameCode cs h.chunks) (limit : Nat) :
    (h.guise ρ cs).equalWithin limit = h.equalWithin limit := by
  induction limit with
  | zero => rfl
  | succ limit ih =>
    funext seen a b
    unfold equalWithin
    rw [ih]
    split
    case h_7 =>
      -- Two functions, compared by what they are made of.
      dsimp only
      rw [constants_guise hcs, constants_guise hcs, lines_guise hcs, lines_guise hcs,
        sameHead_guise hcs]
      rfl
    case h_12 i j =>
      rw [handle_guise hρ, handle_guise hρ]
      refine congrArg (fun same => some (same, seen)) (Bool.eq_iff_iff.mpr ?_)
      rw [beq_iff_eq, beq_iff_eq]
      exact hρ.eq_iff
    all_goals rfl

theorem equalityLimit_guise (hcs : SameCode cs h.chunks) (a b : Value) :
    (h.guise ρ cs).equalityLimit a b = h.equalityLimit a b := by
  rw [equalityLimit, equalityLimit, deepest_guise hcs]
  rfl

theorem equal?_guise (hρ : Renumbers ρ) (hcs : SameCode cs h.chunks) (a b : Value) :
    (h.guise ρ cs).equal? a b = h.equal? a b := by
  rw [equal?, equal?, equalWithin_guise hρ hcs, equalityLimit_guise hcs]

/-! ## Operations -/

theorem index_guise (hcs : SameCode cs h.chunks) {collection key : Value}
    (hkey : (∃ i, collection = .map i) → ¬h.Mentions key) :
    (h.guise ρ cs).index collection key = h.index collection key := by
  cases collection with
  | map i =>
    simp only [index]
    rw [mapKey_guise hcs (hkey ⟨i, rfl⟩)]
    rfl
  | array | string => cases key <;> rfl
  | _ => rfl

theorem add_guise (hcs : SameCode cs h.chunks) {a b : Value}
    (htext : (∃ s, a = .string s) ∨ (∃ s, b = .string s) → ¬h.Mentions a ∧ ¬h.Mentions b) :
    (h.guise ρ cs).add a b = h.add a b := by
  unfold add
  split
  · rfl
  · obtain ⟨ha, hb⟩ := htext (.inl ⟨_, rfl⟩)
    rw [concat_guise hcs ha hb]
  · obtain ⟨ha, hb⟩ := htext (.inr ⟨_, rfl⟩)
    rw [concat_guise hcs ha hb]
  · rfl

theorem setIndex_guise (hcs : SameCode cs h.chunks) {collection key : Value} (v : Value)
    (hkey : (∃ i, collection = .map i) → ¬h.Mentions key) :
    (h.guise ρ cs).setIndex collection key v = (h.setIndex collection key v).map (guise ρ cs) := by
  cases collection with
  | array i =>
    simp only [setIndex]
    rw [show (h.guise ρ cs).array i = h.array i from rfl]
    cases key.position (h.array i).size <;> rfl
  | map i =>
    simp only [setIndex]
    rw [mapKey_guise hcs (hkey ⟨i, rfl⟩)]
    rfl
  | _ => rfl

/-! ## Documents -/

theorem jsonWithin_guise (limit : Nat) :
    (h.guise ρ cs).jsonWithin limit = h.jsonWithin limit := by
  induction limit with
  | zero => rfl
  | succ limit ih =>
    funext around v
    unfold jsonWithin
    rw [ih]
    rfl

theorem stringify_guise (v : Value) : (h.guise ρ cs).stringify v = h.stringify v := by
  rw [stringify, stringify, toJson, toJson, jsonWithin_guise]
  rfl

mutual

theorem ofJson_guise : ∀ (j : Json) (h : Heap),
    (h.guise ρ cs).ofJson j = ((h.ofJson j).1, (h.ofJson j).2.guise ρ cs)
  | .null, _ | .bool _, _ | .integer _, _ | .float _, _ | .string _, _ => rfl
  | .array items, h => by
    simp only [ofJson]
    rw [ofJsonItems_guise items h]
    rfl
  | .object members, h => by
    simp only [ofJson]
    rw [ofJsonMembers_guise members h]
    rfl

theorem ofJsonItems_guise : ∀ (js : List Json) (h : Heap),
    (h.guise ρ cs).ofJsonItems js = ((h.ofJsonItems js).1, (h.ofJsonItems js).2.guise ρ cs)
  | [], _ => rfl
  | item :: rest, h => by
    simp only [ofJsonItems]
    rw [ofJson_guise item h, ofJsonItems_guise rest _]

theorem ofJsonMembers_guise : ∀ (js : List (String × Json)) (h : Heap),
    (h.guise ρ cs).ofJsonMembers js =
      ((h.ofJsonMembers js).1, (h.ofJsonMembers js).2.guise ρ cs)
  | [], _ => rfl
  | (_, item) :: rest, h => by
    simp only [ofJsonMembers]
    rw [ofJson_guise item h, ofJsonMembers_guise rest _]

end

end Heap

/-! ## Natives -/

namespace HeapM

variable {α β : Type} {ρ : TaskId → TaskId} {h : Heap} {cs : Array Chunk}

/-- Two computations come to the same, on a heap and on one with other numbers for tasks. New
code is the same in both, and nothing is remembered about it yet. -/
inductive Agree (ρ : TaskId → TaskId) (h : Heap) (cs : Array Chunk) :
    EStateM.Result Fault Heap α → EStateM.Result Fault Heap α → Prop where
  | ok {a : α} {h' : Heap} {fresh : Array Chunk} (hchunks : h'.chunks = h.chunks ++ fresh)
      (hblank : ∀ c ∈ fresh, c.slotCache = {}) :
      Agree ρ h cs (.ok a h') (.ok a (h'.guise ρ (cs ++ fresh)))
  | error {e : Fault} {h' : Heap} {fresh : Array Chunk} (hchunks : h'.chunks = h.chunks ++ fresh)
      (hblank : ∀ c ∈ fresh, c.slotCache = {}) :
      Agree ρ h cs (.error e h') (.error e (h'.guise ρ (cs ++ fresh)))

/-- What a computation on a heap comes to does not depend on the numbers of tasks, nor on what
is remembered about code. -/
def Blind (x : HeapM α) (h : Heap) : Prop :=
  ∀ ρ cs, Renumbers ρ → SameCode cs h.chunks → Agree ρ h cs (x h) (x (h.guise ρ cs))

theorem Agree.ok_of_chunks {a : α} {h' : Heap} (hchunks : h'.chunks = h.chunks) :
    Agree ρ h cs (.ok a h') (.ok a (h'.guise ρ cs)) := by
  have hok : Agree ρ h cs (.ok a h') (.ok a (h'.guise ρ (cs ++ #[]))) :=
    .ok (hchunks.trans Array.append_empty.symm) (by simp)
  rwa [Array.append_empty] at hok

theorem Agree.error_same (e : Fault) : Agree ρ h cs (.error e h : EStateM.Result Fault Heap α)
    (.error e (h.guise ρ cs)) := by
  have herror : Agree ρ h cs (.error e h : EStateM.Result Fault Heap α)
      (.error e (h.guise ρ (cs ++ #[]))) := .error Array.append_empty.symm (by simp)
  rwa [Array.append_empty] at herror

theorem blind_pure (a : α) (h : Heap) : Blind (pure a) h := fun _ _ _ _ => .ok_of_chunks rfl

theorem blind_throw (e : Fault) (h : Heap) : Blind (throw e : HeapM α) h :=
  fun _ _ _ _ => .error_same e

theorem blind_raise (e : RuntimeError) (h : Heap) : Blind (HeapM.raise e : HeapM α) h :=
  blind_throw _ h

theorem blind_ofExcept (x : Except RuntimeError α) (h : Heap) : Blind (HeapM.ofExcept x) h := by
  cases x with
  | ok a => exact blind_pure a h
  | error e => exact blind_raise e h

theorem blind_bind {x : HeapM α} {f : α → HeapM β} (hx : Blind x h)
    (hf : ∀ a h', x h = .ok a h' → Blind (f a) h') : Blind (x >>= f) h := by
  intro ρ cs hρ hcs
  have hagree := hx ρ cs hρ hcs
  cases hr : x h with
  | ok a h' =>
    rw [hr] at hagree
    generalize hr' : x (h.guise ρ cs) = r' at hagree
    cases hagree with
    | @ok _ _ fresh hchunks hblank =>
      rw [bind_ok hr, bind_ok hr']
      have hcs' : SameCode (cs ++ fresh) h'.chunks := hchunks ▸ hcs.append fresh
      have hboth : ∀ fresh', (∀ c ∈ fresh', c.slotCache = {}) →
          ∀ c ∈ fresh ++ fresh', c.slotCache = {} := fun fresh' hblank' c hc =>
        (Array.mem_append.mp hc).elim (hblank c) (hblank' c)
      have hnext := hf a h' hr ρ (cs ++ fresh) hρ hcs'
      generalize f a h' = s at hnext ⊢
      generalize f a (h'.guise ρ (cs ++ fresh)) = s' at hnext ⊢
      cases hnext with
      | @ok _ _ fresh' hchunks' hblank' =>
        rw [Array.append_assoc]
        exact .ok (by rw [hchunks', hchunks, Array.append_assoc]) (hboth fresh' hblank')
      | @error _ _ fresh' hchunks' hblank' =>
        rw [Array.append_assoc]
        exact .error (by rw [hchunks', hchunks, Array.append_assoc]) (hboth fresh' hblank')
  | error e h' =>
    rw [hr] at hagree
    generalize hr' : x (h.guise ρ cs) = r' at hagree
    cases hagree with
    | error hchunks hblank =>
      rw [bind_error hr, bind_error hr']
      exact .error hchunks hblank

/-- Looking at the heap, at something that has no numbers of tasks in it. -/
theorem blind_get_bind {f : Heap → HeapM α}
    (he : ∀ ρ cs, Renumbers ρ → SameCode cs h.chunks → f (h.guise ρ cs) = f h)
    (hf : Blind (f h) h) : Blind (get >>= f) h := by
  intro ρ cs hρ hcs
  rw [get_bind_apply, get_bind_apply, he ρ cs hρ hcs]
  exact hf ρ cs hρ hcs

theorem blind_modify {f : Heap → Heap} (hchunks : (f h).chunks = h.chunks)
    (hf : ∀ ρ cs, Renumbers ρ → SameCode cs h.chunks →
      f (h.guise ρ cs) = (f h).guise ρ cs) : Blind (modify f : HeapM PUnit) h := by
  intro ρ cs hρ hcs
  rw [modify_apply, modify_apply, hf ρ cs hρ hcs]
  exact .ok_of_chunks hchunks

end HeapM

namespace Builtin

open HeapM

variable {h : Heap}

/-- Which values a builtin turns into text. -/
def tells (h : Heap) : Builtin → List Value → List Value
  | log, args => args
  | str, [v] => [v]
  | join, [.array a, .string _] => (h.array a).toList
  | has, [.map _, key] => [key]
  | remove, [.map _, key] => [key]
  | replace, [subject, old, new] => [subject, old, new]
  | startsWith, [subject, start] => [subject, start]
  | endsWith, [subject, ending] => [subject, ending]
  | _, _ => []

theorem blind_giveArray (items : List Value) (h : Heap) : Blind (giveArray items) h :=
  fun _ _ _ _ => .ok_of_chunks rfl

theorem blind_changeArray (a : ArrayId) (f : Array Value → Array Value) (h : Heap) :
    Blind (changeArray a f) h := blind_modify rfl fun _ _ _ _ => rfl

theorem findIndex_guise {ρ : TaskId → TaskId} {cs : Array Chunk} (hρ : Renumbers ρ)
    (hcs : SameCode cs h.chunks) (v : Value) (vs : List Value) (i : Nat) :
    findIndex (h.guise ρ cs) v vs i = findIndex h v vs i := by
  induction vs generalizing i with
  | nil => rfl
  | cons x vs ih =>
    unfold findIndex
    rw [Heap.equal?_guise hρ hcs, ih]

theorem find_guise {ρ : TaskId → TaskId} {cs : Array Chunk} (hρ : Renumbers ρ)
    (hcs : SameCode cs h.chunks) (a : ArrayId) (v : Value) :
    find (h.guise ρ cs) a v = find h a v := by
  rw [find, find, findIndex_guise hρ hcs]
  rfl

theorem blind_find (g : Heap) (a : ArrayId) (v : Value) (h : Heap) : Blind (find g a v) h := by
  unfold find
  split
  · exact blind_pure _ h
  · exact blind_throw _ h

theorem blind_math (b : Builtin) (f : Number → Number) (v : Value) (h : Heap) :
    Blind (math b f v) h :=
  blind_bind (blind_ofExcept _ h) fun _ h' _ => blind_pure _ h'

theorem blind_drawInteger (lo hi : Value) (h : Heap) : Blind (drawInteger lo hi) h := by
  unfold drawInteger
  refine blind_bind (blind_ofExcept _ h) fun x h' hx => ?_
  refine blind_bind (blind_ofExcept _ h') fun y h'' hy => ?_
  -- The bounds are numbers, and their texts have nothing to do with tasks.
  have hnumber : ∀ {v : Value} {x : Number} {g g' : Heap},
      HeapM.ofExcept (randint.numberArg v) g = .ok x g' → ∀ h : Heap, ¬h.Mentions v := by
    intro v x g g' hv h hm
    have harg := (ofExcept_eq_ok hv).1
    cases hm <;> cases harg
  intro ρ cs hρ hcs
  rw [get_bind_apply, get_bind_apply, Heap.display_guise hcs (hnumber hx h''),
    Heap.display_guise hcs (hnumber hy h'')]
  dsimp only
  split
  · exact .error_same _
  · exact .ok_of_chunks rfl

theorem blind_cutSlice (args : List Value) (h : Heap) : Blind (cutSlice args) h := by
  unfold cutSlice
  split
  · exact blind_raise _ h
  · split
    · exact blind_raise _ h
    · refine blind_bind (blind_ofExcept _ h) fun a h _ => ?_
      refine blind_get_bind (fun _ _ _ _ => rfl) ?_
      refine blind_bind (blind_ofExcept _ h) fun stop h _ => ?_
      refine blind_bind (blind_ofExcept _ h) fun start h _ => ?_
      exact blind_giveArray _ h

theorem blind_parse (text : String) (h : Heap) : Blind (do
    let (v, h) ← HeapM.ofExcept ((← get).parse text)
    set h
    pure v) h := by
  intro ρ cs hρ hcs
  rw [get_bind_apply, get_bind_apply, Heap.parse, Heap.parse]
  cases Json.read? text with
  | none => exact .error_same _
  | some j =>
    have hj : (h.guise ρ cs).ofJson j = _ := Heap.ofJson_guise j h
    show Agree ρ h cs (.ok (h.ofJson j).1 (h.ofJson j).2)
      (.ok ((h.guise ρ cs).ofJson j).1 ((h.guise ρ cs).ofJson j).2)
    rw [hj]
    exact .ok_of_chunks (h.ofJson_collects j).chunks

section

variable (sink : SinkId) {subject v : Value}

theorem blind_log {args : List Value} (hquiet : ∀ v ∈ tells h log args, ¬h.Mentions v) :
    Blind (log.apply sink args) h := by
  refine blind_bind (blind_modify rfl fun ρ cs _ hcs => ?_) fun _ h' _ => blind_pure _ h'
  have htexts : args.map (h.guise ρ cs).display = args.map h.display :=
    List.map_congr_left fun v hv => Heap.display_guise hcs (hquiet v hv)
  rw [htexts]
  rfl

theorem blind_str (hquiet : ∀ u ∈ tells h str [v], ¬h.Mentions u) :
    Blind (str.apply sink [v]) h := by
  refine blind_get_bind (fun ρ cs _ hcs => ?_) (blind_pure _ h)
  rw [Heap.display_guise hcs (hquiet v List.mem_cons_self)]

theorem blind_join {separator : Value}
    (hquiet : ∀ v ∈ tells h join [subject, separator], ¬h.Mentions v) :
    Blind (join.apply sink [subject, separator]) h := by
  refine blind_bind (blind_ofExcept _ h) fun a h' ha => ?_
  obtain ⟨ha, rfl⟩ := ofExcept_eq_ok ha
  refine blind_bind (blind_ofExcept _ h') fun sep h'' hsep => ?_
  obtain ⟨hsep, rfl⟩ := ofExcept_eq_ok hsep
  refine blind_get_bind (fun ρ cs _ hcs => ?_) (blind_pure _ h'')
  have htells : tells h'' join [subject, separator] = (h''.array a).toList := by
    cases subject <;> cases ha
    cases separator <;> cases hsep
    rfl
  have htexts : (h''.array a).toList.map (h''.guise ρ cs).display =
      (h''.array a).toList.map h''.display :=
    List.map_congr_left fun v hv => Heap.display_guise hcs (hquiet v (htells ▸ hv))
  show pure (Value.string (Text.joinWith sep ((h''.array a).toList.map _))) = _
  rw [htexts]

/-- What is compared is not turned into text. -/
theorem blind_contains : Blind (contains.apply sink [subject, v]) h := by
  unfold apply
  dsimp only
  split
  · refine blind_get_bind (fun ρ cs hρ hcs => by rw [find_guise hρ hcs]) ?_
    exact blind_bind (blind_find _ _ _ h) fun _ h' _ => blind_pure _ h'
  · exact blind_bind (blind_ofExcept _ h) fun _ h' _ => blind_pure _ h'
  · exact blind_raise _ h

theorem blind_indexOf : Blind (indexOf.apply sink [subject, v]) h := by
  refine blind_bind (blind_ofExcept _ h) fun a h' _ => ?_
  refine blind_get_bind (fun ρ cs hρ hcs => by rw [find_guise hρ hcs]) ?_
  refine blind_bind (blind_find _ _ _ h') fun found h'' _ => ?_
  split <;> exact blind_pure _ h''

theorem blind_has {key : Value} (hquiet : ∀ v ∈ tells h has [subject, key], ¬h.Mentions v) :
    Blind (has.apply sink [subject, key]) h := by
  refine blind_bind (blind_ofExcept _ h) fun m h' hm => ?_
  obtain ⟨hm, rfl⟩ := ofExcept_eq_ok hm
  refine blind_get_bind (fun ρ cs _ hcs => ?_) (blind_pure _ h')
  have hkey : ¬h'.Mentions key := by
    cases subject <;> cases hm
    exact hquiet key List.mem_cons_self
  rw [Heap.mapKey_guise hcs hkey]
  rfl

theorem blind_remove {key : Value} (hquiet : ∀ v ∈ tells h remove [subject, key], ¬h.Mentions v) :
    Blind (remove.apply sink [subject, key]) h := by
  unfold apply
  dsimp only
  intro ρ cs hρ hcs
  rw [get_bind_apply, get_bind_apply]
  cases subject with
  | map m =>
    dsimp only
    rw [Heap.mapKey_guise hcs (hquiet key List.mem_cons_self)]
    exact .ok_of_chunks rfl
  | array a =>
    have hremove : Blind (do
        let i ← HeapM.ofExcept (key.position (h.array a).size)
        changeArray a (·.eraseIdxIfInBounds i)
        pure ((h.array a).getD i .nil)) h :=
      blind_bind (blind_ofExcept _ h) fun i h' _ =>
        blind_bind (blind_changeArray a _ h') fun _ h'' _ => blind_pure _ h''
    exact hremove ρ cs hρ hcs
  | _ => exact .error_same _

theorem blind_replace {old new : Value}
    (hquiet : ∀ v ∈ tells h replace [subject, old, new], ¬h.Mentions v) :
    Blind (replace.apply sink [subject, old, new]) h := by
  refine blind_get_bind (fun ρ cs _ hcs => ?_) (blind_pure _ h)
  rw [Heap.display_guise hcs (hquiet subject (by simp [tells])),
    Heap.display_guise hcs (hquiet old (by simp [tells])),
    Heap.display_guise hcs (hquiet new (by simp [tells]))]

theorem blind_startsWith {start : Value}
    (hquiet : ∀ v ∈ tells h startsWith [subject, start], ¬h.Mentions v) :
    Blind (startsWith.apply sink [subject, start]) h := by
  refine blind_get_bind (fun ρ cs _ hcs => ?_) (blind_pure _ h)
  rw [Heap.display_guise hcs (hquiet subject (by simp [tells])),
    Heap.display_guise hcs (hquiet start (by simp [tells]))]

theorem blind_endsWith {ending : Value}
    (hquiet : ∀ v ∈ tells h endsWith [subject, ending], ¬h.Mentions v) :
    Blind (endsWith.apply sink [subject, ending]) h := by
  refine blind_get_bind (fun ρ cs _ hcs => ?_) (blind_pure _ h)
  rw [Heap.display_guise hcs (hquiet subject (by simp [tells])),
    Heap.display_guise hcs (hquiet ending (by simp [tells]))]

theorem blind_stringify : Blind (stringify.apply sink [v]) h := by
  refine blind_get_bind (fun ρ cs _ _ => by rw [Heap.stringify_guise]) ?_
  exact blind_bind (blind_ofExcept _ h) fun _ h' _ => blind_pure _ h'

end

/-- **A builtin that turns no task into text goes by nothing that has to do with the numbers of
tasks.** -/
theorem blind_apply (b : Builtin) (sink : SinkId) (args : List Value)
    (hquiet : ∀ v ∈ b.tells h args, ¬h.Mentions v) : Blind (b.apply sink args) h := by
  unfold apply
  split
  -- Those that make texts or compare look at the heap as a whole.
  case h_1 => exact blind_log sink hquiet
  case h_8 => exact blind_str sink hquiet
  case h_9 => exact blind_join sink hquiet
  case h_10 => exact blind_contains sink
  case h_13 => exact blind_has sink hquiet
  case h_14 => exact blind_remove sink hquiet
  case h_19 => exact blind_replace sink hquiet
  case h_20 => exact blind_startsWith sink hquiet
  case h_21 => exact blind_endsWith sink hquiet
  case h_26 => exact blind_indexOf sink
  case h_37 => exact fun ρ cs hρ hcs => .ok_of_chunks rfl
  case h_41 => exact blind_stringify sink
  -- The others look at single objects.
  all_goals
    repeat' first
      | with_reducible exact blind_pure _ _
      | with_reducible exact blind_raise _ _
      | with_reducible exact blind_giveArray _ _
      | with_reducible exact blind_changeArray _ _ _
      | with_reducible exact blind_math _ _ _ _
      | with_reducible exact blind_drawInteger _ _ _
      | with_reducible exact blind_cutSlice _ _
      | with_reducible exact blind_parse _ _
      | with_reducible exact blind_ofExcept _ _
      | split
      | refine blind_get_bind (fun _ _ _ _ => rfl) ?_
      | with_reducible refine blind_bind ?_ fun _ _ _ => ?_

end Builtin

namespace Native

open HeapM

variable {h : Heap}

/-- A call of a native turns no task into text. Functions of the host are not ours, so of them
it is asked that nothing they do depends on the numbers that tasks have, or might have instead. -/
def Discreet (hosts : Array HostFunction) (n : Native) (args : List Value) (h : Heap) : Prop :=
  match n.body with
  | .builtin b _ => ∀ v ∈ b.tells h args, ¬h.Mentions v
  | .host i => ∀ f, hosts[i]? = some f → ∀ h' ρ cs, Renumbers ρ → SameCode cs h'.chunks →
      h'.guise ρ cs = h → Blind (f args) h'

theorem blind_call {hosts : Array HostFunction} {n : Native} {args : List Value}
    (hd : n.Discreet hosts args h) : Blind (n.call hosts args) h := by
  have hrun : Blind (n.run hosts args) h := by
    unfold Discreet at hd
    unfold run
    cases hbody : n.body with
    | builtin b sink =>
      rw [hbody] at hd
      exact Builtin.blind_apply _ _ _ hd
    | host i =>
      rw [hbody] at hd
      dsimp only
      split
      · exact hd _ ‹_› h id h.chunks .id rfl h.guise_id
      · exact blind_pure _ h
  unfold call
  split
  · split
    · exact hrun
    · exact blind_raise _ h
  · exact hrun

end Native

end TaskVm
