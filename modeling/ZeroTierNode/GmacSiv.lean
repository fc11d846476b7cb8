import ZeroTierNode.Gmac

/-!
AES-GMAC-SIV: the two passes of `GMACSIVEncryptor`, whose encrypted tag is also the nonce of the
second, and the one pass of `GMACSIVDecryptor`.
-/

namespace ZeroTierNode.GmacSiv
open AesCtr Gmac Library.Bytes Library.Runs Library.StreamBuffers

section Classes

/-- The constant that the second word of the tag is masked with: the highest bit of the counter is cleared. -/
def counterMask : BitVec 64 := hton64 0xffffffff7fffffff

/-- The counter block of a tag. -/
def nonce (tag : Pair) : AesCtr.Block := blockOf (Pair.byte (tag.1, tag.2 &&& counterMask))

/-- `aad` of both classes: the data, then zeros up to a whole block. -/
def aad (h : Pair) (m : Memory) (g : GMAC) (call : Call) : GMAC :=
  let g := Gmac.update h m g call
  let len := call.len &&& 0xf
  if len ≠ 0 then Gmac.update h (fun _ => 0) g ⟨0, 16 - len⟩ else g

/-- The fields of `GMACSIVEncryptor`, without the references to the two keyed instances. -/
structure GMACSIVEncryptor where
  output : Nat
  tag : Pair
  gmac : GMAC
  ctr : CTR

def GMACSIVEncryptor.init (e : GMACSIVEncryptor) (iv : BitVec 64) (output : Nat) : GMACSIVEncryptor :=
  { e with output := output, tag := (iv, 0), gmac := e.gmac.init (Pair.byte (iv, 0)) }

def GMACSIVEncryptor.aad (k0 : AES) (m : Memory) (e : GMACSIVEncryptor) (call : Call) : GMACSIVEncryptor :=
  { e with gmac := GmacSiv.aad k0.h m e.gmac call }

def GMACSIVEncryptor.update1 (k0 : AES) (m : Memory) (e : GMACSIVEncryptor) (call : Call) : GMACSIVEncryptor :=
  { e with gmac := Gmac.update k0.h m e.gmac call }

def GMACSIVEncryptor.finish1 (k0 k1 : AES) (e : GMACSIVEncryptor) : GMACSIVEncryptor :=
  let finished := e.gmac.finish k0
  let tag := k1.encrypt (e.tag.1, finished.1.1 ^^^ finished.1.2)
  { e with tag := tag, gmac := finished.2, ctr := CTR.init (nonce tag) e.output }

def GMACSIVEncryptor.update2 (k1 : AES) (s : GMACSIVEncryptor × Memory) (call : Call) : GMACSIVEncryptor × Memory :=
  let crypted := crypt k1.ek (s.1.ctr, s.2) call
  ({ s.1 with ctr := crypted.1 }, crypted.2)

def GMACSIVEncryptor.finish2 (k1 : AES) (s : GMACSIVEncryptor × Memory) : Pair × Memory :=
  (s.1.tag, AesCtr.finish k1.ek (s.1.ctr, s.2))

/-- The fields of `GMACSIVDecryptor`. -/
structure GMACSIVDecryptor where
  ivMac : Pair
  ctr : CTR
  gmac : GMAC
  output : Nat
  decryptedLen : BitVec 32

def GMACSIVDecryptor.init (k1 : AES) (d : GMACSIVDecryptor) (tag : Pair) (output : Nat) : GMACSIVDecryptor :=
  let ivMac := k1.decrypt tag
  { ivMac := ivMac, ctr := CTR.init (nonce tag) output, gmac := d.gmac.init (Pair.byte (ivMac.1, 0)),
    output := output, decryptedLen := 0 }

def GMACSIVDecryptor.aad (k0 : AES) (m : Memory) (d : GMACSIVDecryptor) (call : Call) : GMACSIVDecryptor :=
  { d with gmac := GmacSiv.aad k0.h m d.gmac call }

def GMACSIVDecryptor.update (k1 : AES) (s : GMACSIVDecryptor × Memory) (call : Call) : GMACSIVDecryptor × Memory :=
  let crypted := crypt k1.ek (s.1.ctr, s.2) call
  ({ s.1 with ctr := crypted.1, decryptedLen := s.1.decryptedLen + call.len }, crypted.2)

def GMACSIVDecryptor.finish (k0 k1 : AES) (s : GMACSIVDecryptor × Memory) : Bool × Memory :=
  let m := AesCtr.finish k1.ek (s.1.ctr, s.2)
  let gmac := Gmac.update k0.h m s.1.gmac ⟨s.1.output, s.1.decryptedLen⟩
  let gmacTag := (gmac.finish k0).1
  (gmacTag.1 ^^^ gmacTag.2 == s.1.ivMac.2, m)

/-- A message with the encryptor, in the order that its comment prescribes: the tag and the memory at the end. -/
def GMACSIVEncryptor.message (k0 k1 : AES) (e : GMACSIVEncryptor) (iv : BitVec 64) (output : Nat) (data : Call)
    (first second : List Call) (m : Memory) : Pair × Memory :=
  let e := run (update1 k0 m) ((e.init iv output).aad k0 m data) first
  finish2 k1 (run (update2 k1) (e.finish1 k0 k1, m) second)

/-- A message with the decryptor: what `finish` returns and the memory at the end. -/
def GMACSIVDecryptor.message (k0 k1 : AES) (d : GMACSIVDecryptor) (tag : Pair) (output : Nat) (data : Call)
    (calls : List Call) (m : Memory) : Bool × Memory :=
  finish k0 k1 (run (update k1) ((d.init k1 tag output).aad k0 m data, m) calls)

end Classes

section Passes

/-- The length of the data with the zeros that `aad` puts behind it. -/
def paddedSize (size : Nat) : Nat := 16 * ((size + 15) / 16)

/-- What GMAC is given for a message: the data, padded, and the text. -/
def stream (size : Nat) (data text : Nat → Byte) (i : Nat) : Byte :=
  if i < size then data i else if i < paddedSize size then 0 else text (i - paddedSize size)

variable {h : Pair} {iv data text : Nat → Byte} {m : Memory} {g : GMAC}

theorem aad_spec {call : Call} (start : Absorbed h iv (stream call.len.toNat data text) 0 g)
    (same : ∀ i < call.len.toNat, m (call.input + i) = data i) :
    Absorbed h iv (stream call.len.toNat data text) (paddedSize call.len.toNat) (aad h m g call) := by
  have first : Absorbed h iv (stream call.len.toNat data text) call.len.toNat (Gmac.update h m g call) := by
    have absorbed := update_spec start fun i inside => by
      rw [Nat.zero_add, stream, if_pos inside]
      exact same i inside
    rwa [Nat.zero_add] at absorbed
  have low : (call.len &&& 0xf).toNat = call.len.toNat % 16 := by
    have bits := ofNat_and_fifteen call.len.toNat
    rw [BitVec.ofNat_toNat, BitVec.setWidth_eq] at bits
    rw [show (0xf : BitVec 32) = 15 from rfl, bits, toNat_counted (by omega)]
  simp only [aad]
  by_cases whole : call.len.toNat % 16 = 0
  · have zero : call.len &&& 0xf = 0 := BitVec.eq_of_toNat_eq (low.trans whole)
    have rounded : paddedSize call.len.toNat = call.len.toNat := by
      rw [paddedSize]
      omega
    rw [if_neg (not_not.mpr zero), rounded]
    exact first
  · have rest : call.len &&& 0xf ≠ 0 := fun zero => whole (low.symm.trans (congrArg BitVec.toNat zero))
    have missing : (16 - (call.len &&& 0xf)).toNat = 16 - call.len.toNat % 16 := by
      rw [BitVec.toNat_sub_of_le (by rw [BitVec.le_def, low]; exact Nat.le_of_lt (Nat.mod_lt _ (by decide))), low]
      rfl
    have rounded : paddedSize call.len.toNat = call.len.toNat + (16 - call.len.toNat % 16) := by
      rw [paddedSize]
      omega
    have zeros := @update_spec h iv _ (fun _ => 0) _ _ ⟨0, 16 - (call.len &&& 0xf)⟩ first
    rw [if_pos rest, rounded, ← missing]
    apply zeros
    intro i inside
    rw [missing] at inside
    rw [stream, if_neg (by omega), if_pos (by rw [rounded]; omega)]

/-- The text behind the data. -/
theorem stream_text (size : Nat) (data text : Nat → Byte) (i : Nat) :
    stream size data text (paddedSize size + i) = text i := by
  have before : size ≤ paddedSize size := by
    rw [paddedSize]
    omega
  rw [stream, if_neg (by omega), if_neg (by omega), Nat.add_sub_cancel_left]

theorem run_update1 (k0 : AES) (m : Memory) (e : GMACSIVEncryptor) (calls : List Call) :
    run (GMACSIVEncryptor.update1 k0 m) e calls = { e with gmac := run (Gmac.update k0.h m) e.gmac calls } := by
  induction calls generalizing e with
  | nil => rfl
  | cons call calls ih => exact ih (e.update1 k0 m call)

theorem run_update2 (k1 : AES) (e : GMACSIVEncryptor) (m : Memory) (calls : List Call) :
    run (GMACSIVEncryptor.update2 k1) (e, m) calls =
      ({ e with ctr := (run (crypt k1.ek) (e.ctr, m) calls).1 }, (run (crypt k1.ek) (e.ctr, m) calls).2) := by
  induction calls generalizing e m with
  | nil => rfl
  | cons call calls ih => exact ih { e with ctr := (crypt k1.ek (e.ctr, m) call).1 } (crypt k1.ek (e.ctr, m) call).2

theorem run_decrypt (k1 : AES) (d : GMACSIVDecryptor) (m : Memory) (calls : List Call) :
    run (GMACSIVDecryptor.update k1) (d, m) calls =
      ({ d with
          ctr := (run (crypt k1.ek) (d.ctr, m) calls).1
          decryptedLen := d.decryptedLen + BitVec.ofNat 32 (total calls) },
        (run (crypt k1.ek) (d.ctr, m) calls).2) := by
  induction calls generalizing d m with
  | nil =>
      have none : d.decryptedLen + BitVec.ofNat 32 (total []) = d.decryptedLen := BitVec.add_zero _
      rw [none]
      rfl
  | cons call calls ih =>
      have lengths : d.decryptedLen + call.len + BitVec.ofNat 32 (total calls) =
          d.decryptedLen + BitVec.ofNat 32 (total (call :: calls)) := by
        rw [total_cons, BitVec.ofNat_add, BitVec.ofNat_toNat, BitVec.setWidth_eq, BitVec.add_assoc]
      rw [← lengths]
      exact ih { d with ctr := (crypt k1.ek (d.ctr, m) call).1, decryptedLen := d.decryptedLen + call.len }
        (crypt k1.ek (d.ctr, m) call).2

end Passes

section Messages

/-- Two divisions of the same bytes into calls. -/
def Same (m : Memory) (calls : List Call) (m' : Memory) (others : List Call) : Prop :=
  total calls = total others ∧ ∀ i < total calls, inputAt m calls i = inputAt m' others i

/-- The MAC of a message with this nonce. -/
def mac (k0 : AES) (iv : BitVec 64) (size : Nat) (data text : Nat → Byte) (n : Nat) : BitVec 64 :=
  let tag := digest k0 (Pair.byte (iv, 0)) (stream size data text) (paddedSize size + n)
  tag.1 ^^^ tag.2

variable {k0 k1 : AES} {iv : BitVec 64} {out : Nat} {m : Memory} {data : Call}

/-- What the encryptor returns and writes. -/
theorem encryptor_message (e : GMACSIVEncryptor) {first second : List Call} (short : total second ≤ 2 ^ 32)
    (twice : Same m first m second) (placed : Placed out (total second) 0 second) :
    let tag := k1.encrypt
      (iv, mac k0 iv data.len.toNat (fun i => m (data.input + i)) (inputAt m second) (total second))
    e.message k0 k1 iv out data first second m =
      (tag, written out (fun i => inputAt m second i ^^^ keystream k1.ek (nonce tag) i) (total second) m) := by
  intro tag
  have padded := @aad_spec k0.h (Pair.byte (iv, 0)) (fun i => m (data.input + i)) (inputAt m second) m _ data
    (Absorbed.start e.gmac) fun i inside => rfl
  have absorbed := @run_update k0 _ _ m _ _ first padded fun i inside => by
    rw [stream_text]
    exact twice.2 i inside
  have finished := finish_digest absorbed
  rw [twice.1] at finished
  have text := @finish_run k1.ek (nonce tag) m out second short placed
  simp only [GMACSIVEncryptor.message, run_update1, GMACSIVEncryptor.finish1, GMACSIVEncryptor.aad,
    GMACSIVEncryptor.init, run_update2, GMACSIVEncryptor.finish2]
  generalize run (Gmac.update k0.h m) (GmacSiv.aad k0.h m (e.gmac.init (Pair.byte (iv, 0))) data) first = g at finished
  rw [finished]
  exact congrArg (Prod.mk tag) text

/-- What the decryptor returns and writes, for the text that the input stands for. -/
theorem decryptor_message (d : GMACSIVDecryptor) {tag : Pair} {received : List Call} {text : Nat → Byte}
    (short : total received < 2 ^ 32) (placed : Placed out (total received) 0 received)
    (plain : ∀ i < total received, inputAt m received i ^^^ keystream k1.ek (nonce tag) i = text i) :
    d.message k0 k1 tag out data received m =
      (mac k0 (k1.decrypt tag).1 data.len.toNat (fun i => m (data.input + i)) text (total received) ==
          (k1.decrypt tag).2,
        written out text (total received) m) := by
  have padded := @aad_spec k0.h (Pair.byte ((k1.decrypt tag).1, 0)) (fun i => m (data.input + i)) text m _ data
    (Absorbed.start d.gmac) fun i inside => rfl
  have decrypted : AesCtr.finish k1.ek (run (crypt k1.ek) (CTR.init (nonce tag) out, m) received) =
      written out text (total received) m :=
    (finish_run (Nat.le_of_lt short) placed).trans (written_congr plain)
  have length : (0 + BitVec.ofNat 32 (total received)).toNat = total received := by
    have zero : (0 : BitVec 32) + BitVec.ofNat 32 (total received) = BitVec.ofNat 32 (total received) :=
      BitVec.zero_add _
    rw [zero, toNat_counted short]
  have absorbed := @update_spec _ _ _ (written out text (total received) m) _ _
    ⟨out, 0 + BitVec.ofNat 32 (total received)⟩ padded fun i inside => by
      rw [length] at inside
      rw [written_inside inside, stream_text]
  have finished := finish_digest absorbed
  rw [length] at finished
  simp only [GMACSIVDecryptor.message, GMACSIVDecryptor.aad, GMACSIVDecryptor.init, run_decrypt,
    GMACSIVDecryptor.finish]
  rw [decrypted, finished]
  rfl

theorem mac_congr {size n : Nat} {known other text clear : Nat → Byte} (same : ∀ i < size, known i = other i)
    (equal : ∀ i < n, text i = clear i) : mac k0 iv size known text n = mac k0 iv size other clear n := by
  have bytes : ∀ i < paddedSize size + n, stream size known text i = stream size other clear i := by
    intro i inside
    by_cases first : i < size
    · rw [stream, stream, if_pos first, if_pos first, same i first]
    · by_cases zero : i < paddedSize size
      · rw [stream, stream, if_neg first, if_neg first, if_pos zero, if_pos zero]
      · rw [stream, stream, if_neg first, if_neg first, if_neg zero, if_neg zero, equal _ (by omega)]
  rw [mac, mac, digest_congr bytes]

/-- A message that was encrypted is decrypted to its text, and accepted. -/
theorem message_recovered (key0 key1 : BitVec 256) (iv : BitVec 64) (e : GMACSIVEncryptor) (d : GMACSIVDecryptor)
    {out out' : Nat} {m m' : Memory} {data data' : Call} {first second received : List Call}
    (short : total second < 2 ^ 31) (twice : Same m first m second) (placed : Placed out (total second) 0 second)
    (known : Same m' [data'] m [data]) (length : total received = total second)
    (delivered : ∀ i < total second, inputAt m' received i =
      (e.message (AES.init key0) (AES.init key1) iv out data first second m).2 (out + i))
    (room : Placed out' (total second) 0 received) :
    d.message (AES.init key0) (AES.init key1)
        (e.message (AES.init key0) (AES.init key1) iv out data first second m).1 out' data' received m' =
      (true, written out' (inputAt m second) (total second) m') := by
  have sealed := @encryptor_message (AES.init key0) (AES.init key1) iv out m data e first second (by omega) twice placed
  have decrypted := AES.decrypt_encrypt key1
    (iv, mac (AES.init key0) iv data.len.toNat (fun i => m (data.input + i)) (inputAt m second) (total second))
  generalize (AES.init key1).encrypt
    (iv, mac (AES.init key0) iv data.len.toNat (fun i => m (data.input + i)) (inputAt m second) (total second)) =
      tag at sealed decrypted
  rw [sealed] at delivered ⊢
  have plain : ∀ i < total received,
      inputAt m' received i ^^^ keystream (AES.init key1).ek (nonce tag) i = inputAt m second i := by
    intro i inside
    rw [length] at inside
    have byte := delivered i inside
    dsimp only at byte
    rw [byte, written_inside inside, BitVec.xor_assoc, BitVec.xor_self, BitVec.xor_zero]
  have size : data'.len.toNat = data.len.toNat := by
    have sizes := known.1
    simpa [total] using sizes
  have bytes : ∀ i < data.len.toNat, m' (data'.input + i) = m (data.input + i) := by
    intro i inside
    have byte := known.2 i (by simp only [total_cons]; omega)
    rwa [inputAt, if_pos (size.symm ▸ inside), inputAt, if_pos inside] at byte
  rw [decryptor_message d (by omega) (length.symm ▸ room) plain, decrypted, length, size,
    mac_congr bytes fun i _ => rfl, beq_self_eq_true]

/-- The tag does not depend on the division into calls, nor on what was in the fields before. -/
theorem tagOf_division (aes : AES) (g g' : GMAC) (iv : Nat → Byte) {m m' : Memory} {calls others : List Call}
    (same : Same m calls m' others) : tagOf aes g iv m calls = tagOf aes g' iv m' others := by
  rw [tagOf_eq, tagOf_eq, ← same.1, digest_congr same.2]

/-- What two passes encrypt one pass decrypts and accepts, however each is divided, and so it is with the tag. -/
theorem gmac_siv :
    (∀ (key0 key1 : BitVec 256) (iv : BitVec 64) (e : GMACSIVEncryptor) (d : GMACSIVDecryptor) (out out' : Nat)
      (m m' : Memory) (data data' : Call) (first second received : List Call),
      total second < 2 ^ 31 → Same m first m second → Placed out (total second) 0 second →
      Same m' [data'] m [data] → total received = total second →
      (∀ i < total second, inputAt m' received i =
        (e.message (AES.init key0) (AES.init key1) iv out data first second m).2 (out + i)) →
      Placed out' (total second) 0 received →
      d.message (AES.init key0) (AES.init key1)
          (e.message (AES.init key0) (AES.init key1) iv out data first second m).1 out' data' received m' =
        (true, written out' (inputAt m second) (total second) m')) ∧
    ∀ (key : BitVec 256) (g g' : GMAC) (iv : Nat → Byte) (m m' : Memory) (calls others : List Call),
      Same m calls m' others → tagOf (AES.init key) g iv m calls = tagOf (AES.init key) g' iv m' others := by
  constructor
  · intro key0 key1 iv e d out out' m m' data data' first second received short twice placed known length delivered
    exact message_recovered key0 key1 iv e d short twice placed known length delivered
  · intro key g g' iv m m' calls others same
    exact tagOf_division (AES.init key) g g' iv same

/-- Memory before a message of 37 bytes, with 21 bytes of other data at the start. -/
def before : Memory := fun x => BitVec.ofNat 8 (3 * x)

def unused : GMAC := ⟨0, 0, fun _ => 0, fun _ => 0, (0, 0)⟩

/-- The message encrypted where it is, with two divisions. -/
def sealedMessage : Pair × Memory :=
  GMACSIVEncryptor.message (AES.init 1) (AES.init 2) ⟨0, (0, 0), unused, CTR.init ⟨0, 0, 0, 0⟩ 0⟩ 0x1122334455667788
    0x1000 ⟨0, 21⟩ [⟨0x1000, 20⟩, ⟨0x1014, 17⟩] [⟨0x1000, 3⟩, ⟨0x1003, 34⟩] before

/-- Memory of the receiver, with the encrypted message in the same place. -/
def received : Memory := fun x => if x < 0x1000 then before x else sealedMessage.2 x

theorem sealed_message_opened :
    GMACSIVDecryptor.message (AES.init 1) (AES.init 2) ⟨(0, 0), CTR.init ⟨0, 0, 0, 0⟩ 0, unused, 0, 0⟩
        sealedMessage.1 0x1000 ⟨0, 21⟩ [⟨0x1000, 33⟩, ⟨0x1021, 4⟩] received =
      (true, written 0x1000 (inputAt before [⟨0x1000, 3⟩, ⟨0x1003, 34⟩]) 37 received) ∧
    tagOf (AES.init 1) unused (fun _ => 7) before [⟨5, 2⟩, ⟨7, 30⟩] =
      tagOf (AES.init 1) unused (fun _ => 7) before [⟨5, 32⟩] := by
  have known : Same received [⟨0, 21⟩] before [⟨0, 21⟩] := by
    refine ⟨rfl, fun i inside => ?_⟩
    have below : i < (21 : BitVec 32).toNat := inside
    rw [inputAt, if_pos below, inputAt, if_pos below]
    have low : 0 + i < 0x1000 := by
      change i < 21 at below
      omega
    exact if_pos low
  have beyond (x : Nat) (high : 0x1000 ≤ x) : received x = sealedMessage.2 x := if_neg (Nat.not_lt.mpr high)
  have delivered : ∀ i < 37, inputAt received [⟨0x1000, 33⟩, ⟨0x1021, 4⟩] i = sealedMessage.2 (0x1000 + i) := by
    intro i inside
    rw [inputAt]
    by_cases low : i < (33 : BitVec 32).toNat
    · rw [if_pos low]
      exact beyond _ (Nat.le_add_right _ _)
    · have last : i - (33 : BitVec 32).toNat < (4 : BitVec 32).toNat := by
        change ¬ i < 33 at low
        show i - 33 < 4
        omega
      have place : 0x1021 + (i - (33 : BitVec 32).toNat) = 0x1000 + i := by
        change ¬ i < 33 at low
        show 0x1021 + (i - 33) = 0x1000 + i
        omega
      rw [if_neg low, inputAt, if_pos last]
      show received (0x1021 + (i - (33 : BitVec 32).toNat)) = _
      rw [place]
      exact beyond _ (Nat.le_add_right _ _)
  exact ⟨gmac_siv.1 1 2 _ _ _ _ _ _ _ _ _ _ _ _ (by decide) ⟨by decide, by decide⟩ ⟨Or.inl rfl, Or.inl rfl, trivial⟩
    known (by decide) delivered ⟨Or.inl rfl, Or.inl rfl, trivial⟩, gmac_siv.2 1 _ _ _ _ _ _ _ ⟨by decide, by decide⟩⟩

end Messages

end ZeroTierNode.GmacSiv
