import Fusion.Hash.ByteOrder
import Fusion.Hash.Padding
import Fusion.Library.Rotation

/-!
# MD5 computes the standard's digest

The sixty-four lines are sixteen groups of four, each of them one operation of the standard under
four names for the registers.
-/

namespace Fusion.MD5

open Words

/-- The registers under the names they have one line later. -/
def turn (r : Registers) : Registers := ⟨r.d, r.a, r.b, r.c⟩

/-- The registers as those of the standard. -/
def registers (r : Registers) : MessageDigest.Registers := ⟨r.a, r.b, r.c, r.d⟩

/-- A line with the arguments of an operation. -/
def keyed
    (line : (UInt32 → UInt32 → UInt32 → UInt32) → UInt32 → UInt32 → UInt32 → Registers → Registers)
    (word : Nat → UInt32) (operation : MessageDigest.Operation) : Registers → Registers :=
  line operation.f (word operation.k) operation.t operation.s

variable (word : Nat → UInt32)

theorem registers_turn_setA (operation : MessageDigest.Operation) (r : Registers) :
    registers (turn (keyed setA word operation r)) =
      MessageDigest.operate word operation (registers r) := by
  simp only [registers, turn, keyed, setA, MessageDigest.operate, UInt32.add_comm r.b]
  rfl

/-- The four line forms in the order of a group. -/
def lineForms (word : Nat → UInt32) : List (MessageDigest.Operation → Registers → Registers) :=
  [keyed setA word, keyed setD word, keyed setC word, keyed setB word]

theorem renames_lineForms : Rotation.Renames turn (lineForms word) := by
  simp only [Rotation.Renames, lineForms, List.isChain_cons_cons]
  exact ⟨fun _ _ => rfl, fun _ _ => rfl, fun _ _ => rfl, .singleton _⟩

/-- The operations of a group. -/
def group (i : Nat) : List MessageDigest.Operation :=
  (List.range' (4 * i) 4).map MessageDigest.operation

theorem registers_unrolled_group (r : Registers) (i : Nat) :
    registers (Rotation.unrolled (lineForms word) (group i) r) =
      (List.range' (4 * i) 4).foldl
        (fun r i => MessageDigest.operate word (MessageDigest.operation i) r) (registers r) := by
  have rolled := Rotation.unrolled_eq_rolled (renames_lineForms word) (fun _ => rfl)
    (show (group i).length = _ by rw [group, List.length_map, List.length_range']; rfl) r
  rw [lineForms, rolled, Rotation.view_rolled (registers_turn_setA word), group, List.foldl_map]

theorem f1_eq_auxiliaryF : f1 = MessageDigest.auxiliaryF := by
  funext b c d
  rw [f1, MessageDigest.auxiliaryF, xor_and_xor_eq_choose, and_or_not_and_eq_choose]

theorem f2_eq_auxiliaryG : f2 = MessageDigest.auxiliaryG := by
  funext b c d
  rw [f2, MessageDigest.auxiliaryG, xor_and_xor_eq_choose, UInt32.and_comm b, UInt32.and_comm c,
    and_or_not_and_eq_choose]

theorem lines_eq_groups :
    lines word = (List.range' 0 16).flatMap fun i =>
      ((lineForms word).zip (group i)).map fun call => call.1 call.2 := by
  rw [lines, f1_eq_auxiliaryF, f2_eq_auxiliaryG]
  rfl

theorem registers_lines (input : List UInt8) (r : Registers) :
    registers ((lines fun index => swap (input32 input index)).foldl (fun r line => line r) r) =
      MessageDigest.operations input 64 (registers r) := by
  have words : (fun index => swap (input32 input index)) = MessageDigest.blockWord input :=
    funext fun index => input32_eq_blockWord input index
  have grouped : (lines (MessageDigest.blockWord input)).foldl (fun r line => line r) r =
      (List.range' 0 16).foldl
        (fun r i => Rotation.unrolled (lineForms (MessageDigest.blockWord input)) (group i) r)
        r := by
    rw [lines_eq_groups, List.foldl_flatMap]
    simp only [List.foldl_map]
    rfl
  rw [words, grouped, Rotation.view_iterations (registers_unrolled_group _),
    MessageDigest.operations, List.range_eq_range']

theorem added_eq (digest : Vector UInt32 4) {r : Registers} {ended : MessageDigest.Registers}
    (registers_eq : registers r = ended) :
    #v[digest.get 0 + r.a, digest.get 1 + r.b, digest.get 2 + r.c, digest.get 3 + r.d] =
      #v[ended.a + digest.get 0, ended.b + digest.get 1, ended.c + digest.get 2,
        ended.d + digest.get 3] := by
  subst registers_eq
  simp only [registers, UInt32.add_comm]

theorem processBlock_eq_compress : processBlock = MessageDigest.compress := by
  funext digest input
  unfold processBlock MessageDigest.compress
  exact added_eq digest (registers_lines input _)

theorem implements_md5 : algorithm.Implements MessageDigest.md5 where
  initialDigest_eq := by decide
  processBlock_eq := processBlock_eq_compress
  lengthBytes_eq := littleEndianBytes_eq
  wordBytes_eq digest := congrArg (List.flatMap · digest.toList) (funext littleEndianWord_eq)
  length_output := MessageDigest.length_hashBytes

/-- `Reset`, one `Process` and `Finish` write the MD5 digest of the message. -/
theorem oneShot_eq_md5 (message buffer : List UInt8) (short : message.length < 2 ^ 61) :
    MDHash.oneShot algorithm message buffer =
      (MessageDigest.md5.digest message).take buffer.length ++ buffer.drop 16 :=
  MDHash.oneShot_eq_digest_of_implements implements_md5 short buffer

theorem oneShot_eq_md5_spilled :
    (List.replicate 60 0).length < 2 ^ 61 ∧
      MDHash.oneShot algorithm (List.replicate 60 0) (List.replicate 16 0) =
        (MessageDigest.md5.digest (List.replicate 60 0)).take 16 ++ (List.replicate 16 0).drop 16 :=
  ⟨by decide, oneShot_eq_md5 _ _ (by decide)⟩

example : MDHash.oneShot algorithm [97, 98, 99] (List.replicate 16 0) =
      [0x90, 0x01, 0x50, 0x98, 0x3c, 0xd2, 0x4f, 0xb0, 0xd6, 0x96, 0x3f, 0x7d,
        0x28, 0xe1, 0x7f, 0x72] := by
  decide +kernel

end Fusion.MD5
