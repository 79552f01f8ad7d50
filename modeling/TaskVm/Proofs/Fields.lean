import TaskVm.ProgramFile.Reader
import TaskVm.ProgramFile.Writer
import Mathlib.Algebra.Group.Nat.Defs
import Mathlib.Data.List.Forall2

/-!
# Fields of a file

A reader takes what it needs from the front of the bytes and leaves the rest. `Reads r bytes a`
says that `r` takes exactly these bytes, whatever follows them, and makes `a` of them, and that
it misses each of them: where they are cut short, it finds the file truncated and nothing else
wrong with it. Readers run one after the other read fields written one after the other, so that
what is written is read back, and is not read in part, is a matter of one lemma for each kind of
field.

In the other direction a reader promises something of whatever it makes, from whatever bytes.
That is `Gives r P`, and it composes in the same way.
-/

namespace TaskVm.ProgramFile

variable {α β : Type}

/-- A reader takes some bytes, whatever follows them, and makes something of them. -/
structure Reads (r : ReadM α) (bytes : List UInt8) (a : α) : Prop where
  whole : ∀ rest, r (bytes ++ rest) = .ok (a, rest)
  /-- It does not do with fewer, and finds no other fault with them. -/
  short : ∀ front, front <+: bytes → front ≠ bytes → ∃ part, r front = .error (.truncated part)

/-- Whatever a reader makes of whatever it is given has a property. -/
def Gives (r : ReadM α) (P : α → Prop) : Prop :=
  ∀ bytes a rest, r bytes = .ok (a, rest) → P a

/-! ## Readers one after the other -/

theorem bind_apply {σ : Type} (x : StateT σ (Except Error) α) (f : α → StateT σ (Except Error) β)
    (s : σ) : (x >>= f) s = match x s with
      | .ok (a, s') => f a s'
      | .error e => .error e := by
  show (do let p ← x s; f p.1 p.2 : Except Error (β × σ)) = _
  cases x s with
  | ok p => rfl
  | error e => rfl

/-- A sequence succeeds when both parts do. -/
theorem bind_eq_ok {σ : Type} {x : StateT σ (Except Error) α} {f : α → StateT σ (Except Error) β}
    {s s'' : σ} {b : β} :
    (x >>= f) s = .ok (b, s'') ↔ ∃ a s', x s = .ok (a, s') ∧ f a s' = .ok (b, s'') := by
  rw [bind_apply]
  cases x s with
  | ok p =>
    obtain ⟨a, s'⟩ := p
    simp
  | error e => simp

theorem reads_pure (a : α) : Reads (pure a) [] a where
  whole _ := rfl
  short _ hfront hne := absurd (List.prefix_nil.mp hfront) hne

theorem reads_bind {r : ReadM α} {f : α → ReadM β} {bs cs : List UInt8} {a : α} {b : β}
    (hr : Reads r bs a) (hf : Reads (f a) cs b) : Reads (r >>= f) (bs ++ cs) b where
  whole rest := by
    rw [bind_apply, List.append_assoc, hr.whole]
    exact hf.whole rest
  short front hfront hne := by
    rw [bind_apply]
    by_cases hlen : front.length < bs.length
    -- The cut is in what the first reader takes, or else it leaves a part to the second.
    · have hfirst : front <+: bs :=
        List.prefix_of_prefix_length_le hfront (List.prefix_append bs cs) (Nat.le_of_lt hlen)
      obtain ⟨part, hpart⟩ := hr.short front hfirst (fun h => by simp [h] at hlen)
      exact ⟨part, by rw [hpart]⟩
    · have hbs : bs <+: front :=
        List.prefix_of_prefix_length_le (List.prefix_append bs cs) hfront (Nat.le_of_not_lt hlen)
      obtain ⟨mid, rfl⟩ := hbs
      rw [hr.whole]
      exact hf.short mid ((List.prefix_append_right_inj bs).mp hfront) fun h => hne (by rw [h])

/-- A reader whose result is worked on takes what it took. -/
theorem reads_map {r : ReadM α} {bs : List UInt8} {a : α} (hr : Reads r bs a) (f : α → β) :
    Reads (do pure (f (← r))) bs (f a) := by
  rw [← List.append_nil bs]
  exact reads_bind hr (reads_pure (f a))

theorem gives_pure {P : α → Prop} {a : α} (ha : P a) : Gives (pure a) P := by
  intro bytes b rest h
  cases h
  exact ha

theorem gives_throw {P : α → Prop} (e : Error) : Gives (throw e) P := by
  intro bytes b rest h
  cases h

theorem gives_bind {r : ReadM α} {f : α → ReadM β} {P : α → Prop} {Q : β → Prop}
    (hr : Gives r P) (hf : ∀ a, P a → Gives (f a) Q) : Gives (r >>= f) Q := by
  intro bytes b rest h
  obtain ⟨a, between, ha, hb⟩ := bind_eq_ok.mp h
  exact hf a (hr bytes a between ha) between b rest hb

/-- Where nothing is to be known of a result. -/
theorem gives_any (r : ReadM α) : Gives r fun _ => True := fun _ _ _ _ => trivial

/-! ## Numbers -/

@[simp] theorem length_littleEndian (n v : Nat) : (littleEndian n v).length = n := by
  induction n generalizing v with
  | zero => rfl
  | succ n ih => simp [littleEndian, ih]

theorem toNat_ofNat_mod (v : Nat) : (UInt8.ofNat (v % 256)).toNat = v % 256 := by
  simp

/-- A number that fits is spelled by its bytes. -/
theorem ofLittleEndian_littleEndian {n v : Nat} (hv : v < 256 ^ n) :
    ReadM.ofLittleEndian (littleEndian n v) = v := by
  induction n generalizing v with
  | zero =>
    have hzero : v = 0 := by simpa using hv
    rw [hzero]
    rfl
  | succ n ih =>
    have hrest : v / 256 < 256 ^ n := by
      rw [Nat.pow_succ] at hv
      omega
    rw [littleEndian, ReadM.ofLittleEndian, ih hrest, toNat_ofNat_mod]
    omega

theorem ofLittleEndian_lt (bytes : List UInt8) :
    ReadM.ofLittleEndian bytes < 256 ^ bytes.length := by
  induction bytes with
  | nil => exact Nat.one_pos
  | cons b bs ih =>
    have hb : b.toNat < 256 := b.toNat_lt
    rw [ReadM.ofLittleEndian, List.length_cons, Nat.pow_succ]
    omega

theorem reads_take (part : String) (bytes : List UInt8) :
    Reads (ReadM.take part bytes.length) bytes bytes where
  whole rest := by
    have hfront : (bytes ++ rest).take bytes.length = bytes := List.take_left
    have hback : (bytes ++ rest).drop bytes.length = rest := List.drop_left
    unfold ReadM.take
    dsimp only
    rw [hfront, if_pos rfl, hback]
  short front hfront hne := by
    have hlen : ¬ front.length = bytes.length := fun h => hne (hfront.eq_of_length h)
    have htake : front.take bytes.length = front := List.take_of_length_le hfront.length_le
    refine ⟨part, ?_⟩
    unfold ReadM.take
    dsimp only
    rw [htake, if_neg hlen]

theorem gives_take (part : String) (n : Nat) :
    Gives (ReadM.take part n) fun bytes => bytes.length = n := by
  intro bytes front rest h
  unfold ReadM.take at h
  dsimp only at h
  split at h
  · rename_i hlen
    cases h
    exact hlen
  · cases h

theorem reads_number (part : String) {n v : Nat} (hv : v < 256 ^ n) :
    Reads (ReadM.number part n) (littleEndian n v) v := by
  have htake := reads_take part (littleEndian n v)
  rw [length_littleEndian] at htake
  have hmap := reads_map htake ReadM.ofLittleEndian
  rwa [ofLittleEndian_littleEndian hv] at hmap

theorem gives_number (part : String) (n : Nat) :
    Gives (ReadM.number part n) fun v => v < 256 ^ n := by
  refine gives_bind (gives_take part n) fun bytes hlen => gives_pure ?_
  rw [← hlen]
  exact ofLittleEndian_lt bytes

theorem reads_byte (part : String) (b : UInt8) : Reads (ReadM.byte part) [b] b := by
  have hb : b.toNat < 256 ^ 1 := b.toNat_lt
  have hbytes : littleEndian 1 b.toNat = [b] := by
    have hmod : b.toNat % 256 = b.toNat := Nat.mod_eq_of_lt b.toNat_lt
    rw [littleEndian, littleEndian, hmod, UInt8.ofNat_toNat]
  have hmap := reads_map (reads_number part hb) UInt8.ofNat
  rwa [hbytes, UInt8.ofNat_toNat] at hmap

theorem reads_word (part : String) {v : Nat} (hv : v < 2 ^ 32) :
    Reads (ReadM.word part) (word v) v :=
  reads_number part hv

theorem gives_word (part : String) : Gives (ReadM.word part) fun v => v < 2 ^ 32 :=
  gives_number part 4

/-! ## Texts and repeated fields -/

/-- The bytes of an array from an offset on, behind some that have been gone through. -/
theorem toList_loop (b : ByteArray) (i : Nat) (done : List UInt8) :
    ByteArray.toList.loop b i done = done.reverse ++ b.data.toList.drop i := by
  induction i, done using ByteArray.toList.loop.induct b with
  | case1 i done hlt ih =>
    have hi : i < b.data.toList.length := hlt
    have hbyte : b.get! i = b.data.toList[i] := by
      rw [Array.getElem_toList]
      exact getElem!_pos b.data i hlt
    rw [ByteArray.toList.loop, if_pos hlt, ih, hbyte, List.reverse_cons, List.append_assoc,
      List.singleton_append, ← List.drop_eq_getElem_cons hi]
  | case2 i done hge =>
    have hi : b.data.toList.length ≤ i := Nat.le_of_not_lt hge
    rw [ByteArray.toList.loop, if_neg hge, List.drop_eq_nil_of_le hi, List.append_nil]

theorem toList_eq_data (b : ByteArray) : b.toList = b.data.toList := by
  rw [ByteArray.toList, toList_loop]
  rfl

/-- A text whose length a word can hold. -/
def Short (s : String) : Prop := s.utf8ByteSize < 2 ^ 32

theorem reads_text (part : String) {s : String} (hs : Short s) :
    Reads (ReadM.text part) (textBytes s) s := by
  have hbytes : s.toUTF8.toList = s.toUTF8.data.toList := toList_eq_data _
  have htake := reads_take part s.toUTF8.toList
  rw [show s.toUTF8.toList.length = s.utf8ByteSize by rw [hbytes]; rfl] at htake
  have hvalid : String.fromUTF8? ⟨s.toUTF8.toList.toArray⟩ = some s := by
    rw [hbytes, Array.toArray_toList]
    exact dif_pos s.isValidUTF8
  rw [textBytes, ← List.append_nil s.toUTF8.toList]
  refine reads_bind (reads_word part hs) (reads_bind htake ?_)
  rw [hvalid]
  exact reads_pure s

theorem gives_text (part : String) : Gives (ReadM.text part) Short := by
  refine gives_bind (gives_word part) fun n hn => ?_
  refine gives_bind (gives_take part n) fun bytes hlen => ?_
  split
  · rename_i s hs
    refine gives_pure ?_
    unfold String.fromUTF8? at hs
    split at hs
    · injection hs with hs
      have hsize : s.utf8ByteSize = bytes.length := by
        rw [← hs]
        rfl
      rwa [Short, hsize, hlen]
    · cases hs
  · exact gives_throw _

/-- A list of things, each written as some bytes. -/
theorem reads_repeated {r : ReadM α} {parts : List (List UInt8)} {as : List α}
    (h : List.Forall₂ (Reads r) parts as) :
    Reads (ReadM.repeated r as.length) parts.flatten as := by
  induction h with
  | nil => exact reads_pure []
  | @cons bs a parts as hbs _ ih =>
    rw [List.flatten_cons, List.length_cons, ReadM.repeated, ← List.append_nil parts.flatten]
    exact reads_bind hbs (reads_bind ih (reads_pure _))

theorem gives_repeated {r : ReadM α} {P : α → Prop} (hr : Gives r P) (n : Nat) :
    Gives (ReadM.repeated r n) fun as => as.length = n ∧ ∀ a ∈ as, P a := by
  induction n with
  | zero => exact gives_pure ⟨rfl, by simp⟩
  | succ n ih =>
    refine gives_bind hr fun a ha => gives_bind ih fun as has => gives_pure ⟨?_, ?_⟩
    · rw [List.length_cons, has.1]
    · intro b hb
      rcases List.mem_cons.mp hb with rfl | hb
      · exact ha
      · exact has.2 b hb

/-! ## Code -/

/-- Whole words are read back as they are. -/
theorem reads_words (n : Nat) : ∀ {bytes : List UInt8}, bytes.length = 4 * n →
    ∃ words, Reads (ReadM.repeated (ReadM.take "code" 4) n) bytes words ∧
      words.flatten = bytes := by
  induction n with
  | zero =>
    intro bytes hlen
    refine ⟨[], ?_, ?_⟩
    · rw [List.length_eq_zero_iff.mp hlen]
      exact reads_pure []
    · rw [List.length_eq_zero_iff.mp hlen]
      rfl
  | succ n ih =>
    intro bytes hlen
    have hfront : (bytes.take 4).length = 4 := by
      rw [List.length_take]
      omega
    have hback : (bytes.drop 4).length = 4 * n := by
      rw [List.length_drop]
      omega
    obtain ⟨words, hwords, hflat⟩ := ih hback
    have hfour := reads_take "code" (bytes.take 4)
    rw [hfront] at hfour
    refine ⟨bytes.take 4 :: words, ?_, ?_⟩
    · have hboth : Reads (ReadM.repeated (ReadM.take "code" 4) (n + 1))
          (bytes.take 4 ++ (bytes.drop 4 ++ [])) (bytes.take 4 :: words) :=
        reads_bind hfour (reads_bind hwords (reads_pure _))
      rwa [List.append_nil, List.take_append_drop] at hboth
    · rw [List.flatten_cons, hflat, List.take_append_drop]

/-- Code with what fills up its last word. -/
def padded (code : List UInt8) : List UInt8 :=
  code ++ List.replicate (4 * ((code.length + 3) / 4) - code.length) 0

theorem length_padded (code : List UInt8) : (padded code).length = 4 * ((code.length + 3) / 4) := by
  rw [padded, List.length_append, List.length_replicate]
  omega

theorem reads_code {code : List UInt8} (hc : code.length < 2 ^ 32) :
    Reads ReadM.code (codeBytes code) (padded code) := by
  have hn : (code.length + 3) / 4 < 2 ^ 32 := by omega
  obtain ⟨words, hwords, hflat⟩ := reads_words _ (length_padded code)
  have hmap := reads_map hwords List.flatten
  rw [hflat] at hmap
  have hboth : Reads ReadM.code (word ((code.length + 3) / 4) ++ padded code) (padded code) :=
    reads_bind (reads_word "code" hn) hmap
  rwa [padded, ← List.append_assoc] at hboth

end TaskVm.ProgramFile
