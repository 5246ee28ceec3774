import Fusion.Hash.ByteOrder
import Fusion.Hash.Padding
import Fusion.Library.Rotation

/-!
# SHA256 computes the standard's hash

The eight lines of a round are one line under eight names for the registers, so a round of the
source is eight rounds of the standard.
-/

namespace Fusion.SHA256

open Words

/-- The registers under the names they have one line later. -/
def turn (r : Registers) : Registers := ⟨r.h, r.a, r.b, r.c, r.d, r.e, r.f, r.g⟩

/-- The registers as the working variables of the standard. -/
def working (r : Registers) : SecureHash.SHA256.Variables :=
  ⟨r.a, r.b, r.c, r.d, r.e, r.f, r.g, r.h⟩

theorem f1_eq (e f g : UInt32) : f1 e f g = SecureHash.SHA256.bigSigma1 e + choose e f g := rfl

theorem f2_eq (a b c : UInt32) : f2 a b c = SecureHash.SHA256.bigSigma0 a + majority a b c := by
  rw [f2, or_and_or_eq_majority]
  rfl

/-- A line with its constant and its word as one argument. -/
def keyed (line : UInt32 → UInt32 → Registers → Registers) (key : UInt32 × UInt32) :
    Registers → Registers :=
  line key.1 key.2

theorem working_turn_lineH (key : UInt32 × UInt32) (r : Registers) :
    working (turn (keyed lineH key r)) = SecureHash.SHA256.round key.1 key.2 (working r) := by
  simp only [working, turn, keyed, lineH, SecureHash.SHA256.round, f1_eq, f2_eq, UInt32.add_assoc]

theorem renames_lineForms : Rotation.Renames turn (lineForms.map keyed) := by
  simp only [Rotation.Renames, lineForms, List.map_cons, List.map_nil, List.isChain_cons_cons]
  exact ⟨fun _ _ => rfl, fun _ _ => rfl, fun _ _ => rfl, fun _ _ => rfl, fun _ _ => rfl,
    fun _ _ => rfl, fun _ _ => rfl, .singleton _⟩

theorem round_eq_rolled {constants words : List UInt32} {offset : Nat}
    (full : (constants.zip (words.drop offset)).length = 8) (r : Registers) :
    round constants offset words r =
      Rotation.rolled turn (keyed lineH) (constants.zip (words.drop offset)) r := by
  have unrolled : round constants offset words r =
      Rotation.unrolled (lineForms.map keyed) (constants.zip (words.drop offset)) r := by
    rw [Rotation.unrolled, List.zip_map_left, List.foldl_map]
    rfl
  rw [unrolled]
  exact Rotation.unrolled_eq_rolled renames_lineForms (fun _ => rfl) full r

theorem zip_drop_map_range {constants : List UInt32} {f g : Nat → UInt32} {offset known : Nat}
    (constants_eq : constants = (List.range' offset 8).map f) (enough : offset + 8 ≤ known) :
    constants.zip (((List.range known).map g).drop offset) =
      (List.range' offset 8).map fun t => (f t, g t) := by
  subst constants_eq
  apply List.ext_getElem
  · simp
    omega
  · intro place _ _
    simp

theorem working_round {constants words : List UInt32} {input : List UInt8} {offset known : Nat}
    {r : Registers} {v : SecureHash.SHA256.Variables}
    (constants_eq : constants =
      (List.range' offset 8).map fun t => SecureHash.SHA256.constants.getD t 0)
    (words_eq : words =
      (List.range known).map (SecureHash.SHA256.schedule (SecureHash.blockWord input)))
    (enough : offset + 8 ≤ known)
    (before : working r = SecureHash.SHA256.rounds input offset v) :
    working (round constants offset words r) = SecureHash.SHA256.rounds input (offset + 8) v := by
  have keys := @zip_drop_map_range constants _
    (SecureHash.SHA256.schedule (SecureHash.blockWord input)) _ _ constants_eq enough
  subst words_eq
  rw [round_eq_rolled (by rw [keys, List.length_map, List.length_range']), keys,
    Rotation.view_rolled working_turn_lineH, before, List.foldl_map,
    SecureHash.SHA256.rounds, SecureHash.SHA256.rounds, SecureHash.foldl_range_add]

/-- The word that the loop computes at index `i`. -/
def nextWord (word : Nat → UInt32) (i : Nat) : UInt32 :=
  word (i - 16) +
    (rotate (word (i - 15)) 7 ^^^ rotate (word (i - 15)) 18 ^^^ (word (i - 15) >>> 3)) +
    word (i - 7) +
    (rotate (word (i - 2)) 17 ^^^ rotate (word (i - 2)) 19 ^^^ (word (i - 2) >>> 10))

theorem nextWord_eq (word : Nat → UInt32) (i : Nat) :
    nextWord word i =
      SecureHash.SHA256.smallSigma1 (word (i - 2)) + word (i - 7) +
        SecureHash.SHA256.smallSigma0 (word (i - 15)) + word (i - 16) := by
  change word (i - 16) + SecureHash.SHA256.smallSigma0 (word (i - 15)) + word (i - 7) +
    SecureHash.SHA256.smallSigma1 (word (i - 2)) = _
  ac_rfl

theorem nextWord_eq_schedule {message word : Nat → UInt32} {t : Nat} (late : 16 ≤ t)
    (earlier : ∀ i, i < t → word i = SecureHash.SHA256.schedule message i) :
    nextWord word t = SecureHash.SHA256.schedule message t := by
  rw [nextWord_eq, earlier (t - 16) (by omega), earlier (t - 15) (by omega),
    earlier (t - 7) (by omega), earlier (t - 2) (by omega)]
  conv_rhs => rw [SecureHash.SHA256.schedule, if_pos late]

theorem extend_eq_schedule {message : Nat → UInt32} {words : List UInt32} {known : Nat}
    (words_eq : words = (List.range known).map (SecureHash.SHA256.schedule message))
    (enough : 16 ≤ known) (count : Nat) :
    extend count words = (List.range (known + count)).map (SecureHash.SHA256.schedule message) := by
  have extend_succ : ∀ count words, extend (count + 1) words =
      extend count (words ++ [nextWord (fun t => words.getD t 0) words.length]) :=
    fun _ _ => rfl
  rw [words_eq]
  exact SecureHash.extend_map_range (fun _ => rfl) extend_succ
    (fun _ _ late earlier => nextWord_eq_schedule late earlier) enough count

theorem swapped_eq_schedule (input : List UInt8) :
    ((List.range 16).map fun i => swap (input32 input i)) =
      (List.range 16).map (SecureHash.SHA256.schedule (SecureHash.blockWord input)) := by
  refine map_constSwap_input32 fun t below => ?_
  rw [SecureHash.SHA256.schedule, if_neg (Nat.not_le.mpr below)]

theorem added_eq (digest : Vector UInt32 8) {r : Registers} {v : SecureHash.SHA256.Variables}
    (ended : working r = v) :
    #v[digest.get 0 + r.a, digest.get 1 + r.b, digest.get 2 + r.c, digest.get 3 + r.d,
        digest.get 4 + r.e, digest.get 5 + r.f, digest.get 6 + r.g, digest.get 7 + r.h] =
      #v[v.a + digest.get 0, v.b + digest.get 1, v.c + digest.get 2, v.d + digest.get 3,
        v.e + digest.get 4, v.f + digest.get 5, v.g + digest.get 6, v.h + digest.get 7] := by
  subst ended
  simp only [working, UInt32.add_comm]

theorem processBlock_eq_compress : processBlock = SecureHash.SHA256.compress := by
  funext digest input
  have words16 := swapped_eq_schedule input
  have words24 := extend_eq_schedule words16 (by decide) 8
  have words32 := extend_eq_schedule words24 (by decide) 8
  have words40 := extend_eq_schedule words32 (by decide) 8
  have words48 := extend_eq_schedule words40 (by decide) 8
  have words56 := extend_eq_schedule words48 (by decide) 8
  have words64 := extend_eq_schedule words56 (by decide) 8
  unfold processBlock SecureHash.SHA256.compress
  apply added_eq digest
  refine working_round rfl words64 (by decide) ?_
  refine working_round rfl words56 (by decide) ?_
  refine working_round rfl words48 (by decide) ?_
  refine working_round rfl words40 (by decide) ?_
  refine working_round rfl words32 (by decide) ?_
  refine working_round rfl words24 (by decide) ?_
  refine working_round rfl words16 (by decide) ?_
  refine working_round rfl words16 (by decide) ?_
  rfl

theorem implements_sha256 : algorithm.Implements SecureHash.sha256 where
  initialDigest_eq := by decide
  processBlock_eq := processBlock_eq_compress
  lengthBytes_eq := bigEndianBytes_eq
  wordBytes_eq digest := congrArg (List.flatMap · digest.toList) (funext bigEndianWord_eq)
  length_output := SecureHash.length_hashBytes

/-- `Reset`, one `Process` and `Finish` write the SHA-256 digest of the message. -/
theorem oneShot_eq_sha256 (message buffer : List UInt8) (short : message.length < 2 ^ 61) :
    MDHash.oneShot algorithm message buffer =
      (SecureHash.sha256.digest message).take buffer.length ++ buffer.drop 32 :=
  MDHash.oneShot_eq_digest_of_implements implements_sha256 short buffer

theorem oneShot_eq_sha256_spilled :
    (List.replicate 60 0).length < 2 ^ 61 ∧
      MDHash.oneShot algorithm (List.replicate 60 0) (List.replicate 32 0) =
        (SecureHash.sha256.digest (List.replicate 60 0)).take 32 ++ (List.replicate 32 0).drop 32 :=
  ⟨by decide, oneShot_eq_sha256 _ _ (by decide)⟩

example : MDHash.oneShot algorithm [97, 98, 99] (List.replicate 32 0) =
      [0xba, 0x78, 0x16, 0xbf, 0x8f, 0x01, 0xcf, 0xea, 0x41, 0x41, 0x40, 0xde,
        0x5d, 0xae, 0x22, 0x23, 0xb0, 0x03, 0x61, 0xa3, 0x96, 0x17, 0x7a, 0x9c,
        0xb4, 0x10, 0xff, 0x61, 0xf2, 0x00, 0x15, 0xad] := by
  decide +kernel

end Fusion.SHA256
