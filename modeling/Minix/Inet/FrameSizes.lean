/-
This file proves that every frame that IP offers to Ethernet is legal, in every run in which no
packet leaves a short last fragment.

`ipeth_send` fills a short frame up before it takes the size; `ipeth_restart_send` takes the size
first. A packet that waits has been filled up by the former, so that only the rest of a packet that
was split can be short there.
-/

import Minix.Inet.IpEth

namespace Minix.Inet

open Transition (Run execute)
open Option (some.inj ite_none_left_eq_some ite_none_right_eq_some ite_some_none_eq_some)

/-! ### Legal frames -/

/-- The count is that of the bytes in the chain, and Ethernet takes it. -/
structure Offer.Legal (offer : Offer) : Prop where
  exact : offer.count = offer.size
  least : ethMinPackSize ≤ offer.count
  most : offer.count ≤ ethMaxPackSize

/-- Every frame offered to Ethernet is legal, and no assertion on a result has failed. -/
def FramesLegal (s : IpEth) : Prop :=
  (∀ offer ∈ s.offers, offer.Legal) ∧ s.failed ≠ some .result

/-- What is left of a packet that is split, once or several times. -/
inductive Remainder (address : Nat) : List UInt8 → List UInt8 → Prop
  | here {pack first second : List UInt8} :
      ipSplitPack address ethMss pack = some (some (first, second)) → Remainder address pack second
  | again {pack first second rest : List UInt8} :
      ipSplitPack address ethMss pack = some (some (first, second)) →
        Remainder address second rest → Remainder address pack rest

/-- No rest of a packet is so short that its frame has to be filled up. -/
def RestsLong (address : Nat) (pack : List UInt8) : Prop :=
  ∀ rest, Remainder address pack rest → ethMinPackSize ≤ ethHdrSize + rest.length

/-- The packets that are sent leave no short rest. -/
def RestsFit (port : EthPort) (_s : IpEth) : EthInput → Prop
  | .send _ pack _ _ _ _ => RestsLong port.address pack
  | _ => True

/-! ### Packets -/

section Packets

variable {address : Nat} {pack first second rest : List UInt8}

theorem not_remainder (fits : pack.length ≤ ethMss) : ¬Remainder address pack rest := by
  have whole (parts : Option (List UInt8 × List UInt8)) :
      ipSplitPack address ethMss pack ≠ some parts := by
    unfold ipSplitPack
    rw [if_pos (.inr fits)]
    intro wrong
    cases wrong
  rintro (⟨split⟩ | ⟨split, -⟩)
  · exact whole _ split
  · exact whole _ split

theorem RestsLong.of_le (fits : pack.length ≤ ethMss) : RestsLong address pack :=
  fun _ remainder => absurd remainder (not_remainder fits)

theorem sendChksum_length {beyond : List UInt8} {size : Nat} :
    (sendChksum address beyond size pack).length = pack.length := by
  unfold sendChksum setU16
  simp only [List.length_set]

theorem length_first (split : ipSplitPack address ethMss pack = some (some (first, second))) :
    first.length ≤ ethMss ∧ ethMinPackSize ≤ ethHdrSize + first.length := by
  unfold ipSplitPack at split
  split at split
  · cases split
  split at split
  · cases split
  dsimp only at split
  split at split
  · cases split
  rename_i inside
  split at split
  · cases split
  split at split
  case h_2 => cases split
  case h_1 opts walked =>
    obtain ⟨rfl, -⟩ := Prod.mk.inj (some.inj (some.inj split))
    have header := hdrLen_le pack
    have length : (firstPart address (hdrLen pack)
        (pack.take (hdrLen pack + (ethMss - hdrLen pack) / 8 * 8))).length =
        hdrLen pack + (ethMss - hdrLen pack) / 8 * 8 := by
      unfold firstPart setNet16
      rw [sendChksum_length]
      simp only [List.length_set]
      exact List.length_take_of_le (by omega)
    rw [length]
    unfold ethMss ethMaxPackSize ethMinPackSize ethHdrSize
    omega

/-- A packet whose frame is not short, and neither are those of its rests. -/
structure NeverShort (address : Nat) (ip : List UInt8) : Prop where
  long : ethMinPackSize ≤ ethHdrSize + ip.length
  rests : RestsLong address ip

theorem NeverShort.split (fits : NeverShort address pack)
    (split : ipSplitPack address ethMss pack = some (some (first, second))) :
    NeverShort address first ∧ first.length ≤ ethMss ∧ NeverShort address second := by
  obtain ⟨most, least⟩ := length_first split
  exact ⟨⟨least, .of_le most⟩, most, fits.rests _ (.here split),
    fun rest remainder => fits.rests rest (.again split remainder)⟩

theorem length_updateTtl {enqTime now : Nat} {ip aged : List UInt8}
    (updated : ipethUpdateTtl enqTime now ip = some (.ok aged)) : aged.length = ip.length := by
  unfold ipethUpdateTtl at updated
  dsimp only at updated
  split at updated
  · cases updated
  split at updated
  · cases updated
  split at updated
  · cases updated
  obtain ⟨-, updated⟩ := ite_none_left_eq_some.mp updated
  obtain rfl := Except.ok.inj (some.inj updated)
  unfold setU16
  simp only [List.length_set]

end Packets

/-! ### Steps -/

section Steps

variable {port : EthPort} {s : IpEth} {id count : Nat} {pack : EthPack} {dst : EtherAddr}
  {now enqTime : Nat} {busy : Bool} {offer : Offer} {queue : EthQueue}

/-- The frames have been legal, and those to come will be. -/
structure Sized (address : Nat) (s : IpEth) : Prop where
  legal : ∀ offer ∈ s.offers, offer.Legal
  result : s.failed ≠ some .result
  fits : ∀ id pack, s.packs id = some pack → NeverShort address pack.ip

variable {address : Nat}

section

variable (sized : Sized address s)
include sized

theorem Sized.congr {s' : IpEth} (packs : s'.packs = s.packs) (offers : s'.offers = s.offers)
    (failed : s'.failed = s.failed ∨ ∃ failure, failure ≠ .result ∧ s'.failed = some failure) :
    Sized address s' where
  legal := offers ▸ sized.legal
  result := by
    obtain same | ⟨failure, other, same⟩ := failed
    · rw [same]
      exact sized.result
    · rw [same]
      exact fun wrong => other (some.inj wrong)
  fits := packs ▸ sized.fits

theorem Sized.fail {failure : EthFailure} (other : failure ≠ .result) :
    Sized address (s.fail failure) :=
  sized.congr rfl rfl (.inr ⟨failure, other, rfl⟩)

theorem Sized.setPack (fits : NeverShort address pack.ip) :
    Sized address (s.setPack id pack) where
  legal := sized.legal
  result := sized.result
  fits id' pack' found := by
    unfold IpEth.setPack at found
    dsimp only at found
    by_cases same : id' = id
    · rw [same, Function.update_self] at found
      obtain rfl := some.inj found
      exact fits
    · rw [Function.update_of_ne same] at found
      exact sized.fits id' pack' found

theorem Sized.offered (legal : offer.Legal) :
    Sized address { s with offers := offer :: s.offers } where
  legal := List.forall_mem_cons.mpr ⟨legal, sized.legal⟩
  result := sized.result
  fits := sized.fits

end

theorem enqueue_fields : (enqueue queue id s).packs = s.packs ∧
    (enqueue queue id s).offers = s.offers ∧ (enqueue queue id s).failed = s.failed := by
  unfold enqueue
  split <;> exact ⟨rfl, rfl, rfl⟩

section

variable (sized : Sized address s)
include sized

theorem Sized.enqueue : Sized address (enqueue queue id s) :=
  sized.congr enqueue_fields.1 enqueue_fields.2.1 (.inl enqueue_fields.2.2)

theorem Sized.dequeue : Sized address (dequeue queue id s) :=
  sized.congr rfl rfl (.inl rfl)

theorem Sized.writeReply : Sized address (writeReply now s) := by
  unfold Minix.Inet.writeReply
  dsimp only
  split <;> exact sized.congr rfl rfl (.inl rfl)

end

theorem Offer.Legal.illegalSize_eq (legal : offer.Legal) : illegalSize offer.count = false := by
  unfold illegalSize
  rw [decide_eq_false (Nat.not_lt.mpr legal.least), decide_eq_false (Nat.not_lt.mpr legal.most)]
  rfl

theorem Sized.transmit (sized : Sized address s) (legal : offer.Legal) :
    Sized address (transmit id dst offer busy now s) := by
  have offered := sized.offered legal
  unfold Minix.Inet.transmit ethSend startWrite ethWrite
  rw [legal.illegalSize_eq]
  cases s.busy with
  | false => exact offered.congr rfl rfl (.inl rfl)
  | true =>
    change Sized address (if s.writeSp then _ else _)
    split
    · exact (offered.offered legal).congr rfl rfl (.inr ⟨.queue, EthFailure.noConfusion, rfl⟩)
    · exact (offered.offered legal).congr rfl rfl (.inl rfl)

theorem filledUp_fits (rests : RestsLong port.address pack.ip) :
    NeverShort port.address (filledUp port pack).ip := by
  unfold filledUp EthPack.size
  by_cases short : ethMinPackSize ≤ ethHdrSize + pack.ip.length
  · rw [Nat.sub_eq_zero_of_le short, List.range_zero, List.map_nil, List.append_nil]
    exact ⟨short, rests⟩
  · have length : (pack.ip ++ (List.range (ethMinPackSize - (ethHdrSize + pack.ip.length))).map
        port.fresh).length = ethMinPackSize - ethHdrSize := by
      rw [List.length_append, List.length_map, List.length_range]
      omega
    refine ⟨?_, .of_le ?_⟩
    all_goals
      rw [length]
      decide

theorem filledUp_eq (long : ethMinPackSize ≤ pack.size) : filledUp port pack = pack := by
  unfold filledUp
  rw [Nat.sub_eq_zero_of_le long, List.range_zero, List.map_nil, List.append_nil]

theorem Sized.launch (sized : Sized address s) (fits : NeverShort address pack.ip) :
    Sized address (launch id pack dst now busy s) := by
  unfold Minix.Inet.launch
  split
  case isTrue free =>
    refine Sized.transmit (sized.setPack fits) ⟨rfl, fits.long, ?_⟩
    exact free.2
  case isFalse =>
    have queued : Sized address
        (Inet.enqueue .xmit id (s.setPack id { pack with hdr := .eth dst (some now) })) :=
      Sized.enqueue (Sized.setPack sized fits)
    dsimp only
    split
    · exact queued.congr rfl rfl (.inl rfl)
    · exact queued

theorem Sized.arpAnswer (sized : Sized address s) (ipaddr : UInt32) (answer : ArpAnswer) :
    Sized address (s.arpAnswer ipaddr answer) := by
  unfold IpEth.arpAnswer
  split <;> exact sized.congr rfl rfl (.inl rfl)

theorem Sized.ipethSend {dest : UInt32} {data : List UInt8} {broadcast : Bool} {answer : ArpAnswer}
    (sized : Sized port.address s) (rests : RestsLong port.address data) :
    Sized port.address (ipethSend port dest data broadcast now answer busy s) := by
  have next : Sized port.address { s with fresh := s.fresh + 1 } := sized.congr rfl rfl (.inl rfl)
  have new (hop : Option UInt32) : NeverShort port.address (newPack port data hop now).ip :=
    filledUp_fits rests
  unfold Minix.Inet.ipethSend
  split
  · exact next.launch (new none)
  split
  · exact next.fail EthFailure.noConfusion
  split
  · exact next.fail EthFailure.noConfusion
  have answered := next.arpAnswer dest answer
  split
  · exact (answered.setPack (new (some dest))).enqueue
  · exact answered.congr rfl rfl (.inl rfl)
  · exact answered.launch (new (some dest))

section

variable (sized : Sized port.address s) (fits : NeverShort port.address pack.ip)
include sized fits

theorem Sized.restartOffer (most : pack.ip.length ≤ ethMss) :
    Sized port.address (restartOffer port id pack dst now busy s) := by
  unfold Minix.Inet.restartOffer
  dsimp only
  rw [filledUp_eq fits.long]
  split
  · exact (sized.setPack fits).fail EthFailure.noConfusion
  · exact (sized.setPack fits).transmit ⟨rfl, fits.long, Nat.add_le_add_left most ethHdrSize⟩

theorem Sized.restartAged (most : pack.ip.length ≤ ethMss) :
    Sized port.address (restartAged port id pack dst enqTime now busy s) := by
  unfold Minix.Inet.restartAged
  split
  case isFalse => exact sized.restartOffer fits most
  case isTrue =>
    split
    case h_1 => exact sized.fail EthFailure.noConfusion
    case h_2 => exact sized.congr rfl rfl (.inl rfl)
    case h_3 ip updated =>
      have same := length_updateTtl updated
      have most' : ip.length ≤ ethMss := same.trans_le most
      have fits' : NeverShort port.address ip := ⟨same.symm ▸ fits.long, .of_le most'⟩
      exact @Sized.restartOffer port s id { pack with ip := ip } dst now busy sized fits' most'

theorem Sized.restartPack :
    Sized port.address (restartPack port id pack dst enqTime now busy s) := by
  unfold Minix.Inet.restartPack
  split
  case isFalse small =>
    refine sized.restartAged fits (Nat.le_of_not_lt fun wrong => small ?_)
    unfold EthPack.size
    omega
  case isTrue =>
    split
    case h_1 => exact sized.fail EthFailure.noConfusion
    case h_2 => exact sized.fail EthFailure.noConfusion
    case h_3 first second split =>
      obtain ⟨one, most, two⟩ := fits.split split
      have next : Sized port.address { s with fresh := s.fresh + 1 } :=
        sized.congr rfl rfl (.inl rfl)
      have queued : Sized port.address (requeue pack second s) := (next.setPack two).enqueue
      exact @Sized.restartAged port _ id { pack with ip := first } dst now enqTime busy queued one most

end

theorem Sized.restartRound (sized : Sized port.address s) :
    Sized port.address (restartRound port now busy s) := by
  unfold Minix.Inet.restartRound
  split
  · exact sized.congr rfl rfl (.inl rfl)
  split
  case h_1 found => exact sized.dequeue.restartPack (sized.fits _ _ found)
  case h_2 => exact sized.fail EthFailure.noConfusion

section

variable (sized : Sized address s) {ethAddr : Option EtherAddr}
include sized

theorem Sized.deliver (fits : NeverShort address pack.ip) {xhTime : Nat} :
    Sized address (deliver id pack ethAddr xhTime s) := by
  unfold Minix.Inet.deliver
  split
  · exact sized.congr rfl rfl (.inl rfl)
  · refine Sized.enqueue (Sized.setPack sized ?_)
    exact fits

theorem Sized.unqueue {prev : Option Nat} :
    Sized address (unqueue prev id s) := by
  unfold Minix.Inet.unqueue
  split
  · exact sized.congr rfl rfl (.inl rfl)
  · dsimp only
    split <;> exact sized.congr rfl rfl (.inl rfl)

theorem Sized.searchRound {ipaddr : UInt32} {prev ethPack : Option Nat} :
    Sized address (searchRound ipaddr ethAddr prev ethPack s) := by
  unfold Minix.Inet.searchRound
  split
  · exact sized.congr rfl rfl (.inl rfl)
  split
  case h_1 found =>
    split
    · exact (sized.unqueue.deliver (sized.fits _ _ found)).congr rfl rfl (.inl rfl)
    · exact sized.congr rfl rfl (.inl rfl)
  case h_2 => exact sized.fail EthFailure.noConfusion

theorem Sized.moreRound {answer : ArpAnswer} :
    Sized address (moreRound answer now s) := by
  unfold Minix.Inet.moreRound
  split
  · exact sized.congr rfl rfl (.inl rfl)
  split
  case h_2 => exact sized.fail EthFailure.noConfusion
  case h_1 xhIpaddr _ _ _ found =>
    have answered := sized.arpAnswer xhIpaddr answer
    split
    · exact answered.congr rfl rfl (.inl rfl)
    · exact answered.dequeue.deliver (sized.fits _ _ found)
    · exact answered.dequeue.deliver (sized.fits _ _ found)

theorem Sized.rewrite : Sized address (rewrite count busy now s) := by
  unfold Minix.Inet.rewrite
  split
  · exact sized.fail EthFailure.noConfusion
  split
  case h_2 => exact sized.fail EthFailure.noConfusion
  split
  · exact Sized.writeReply (sized.congr rfl rfl (.inl rfl))
  split
  · exact sized.fail EthFailure.noConfusion
  · exact Sized.writeReply (sized.congr rfl rfl (.inl rfl))

theorem Sized.portWritten {others : Bool} :
    Sized address (portWritten others busy now s) := by
  unfold Minix.Inet.portWritten
  split
  · exact sized
  have idle : Sized address { s with busy := false } := sized.congr rfl rfl (.inl rfl)
  split
  · exact idle
  · exact idle.rewrite

end

theorem Sized.step {input : EthInput} {s' : IpEth} (sized : Sized port.address s)
    (fits : RestsFit port s input) (completed : ethStep port s input = some s') :
    Sized port.address s' := by
  unfold ethStep at completed
  split at completed
  · cases completed
  split at completed
  case h_1 =>
    obtain rfl := some.inj completed
    exact sized.ipethSend fits
  case h_2 =>
    obtain rfl := some.inj completed
    exact sized.congr rfl rfl (.inl rfl)
  case h_3 =>
    obtain ⟨-, completed⟩ := ite_none_left_eq_some.mp completed
    obtain rfl := some.inj completed
    exact sized.congr rfl rfl (.inl rfl)
  case h_4 =>
    obtain ⟨-, rfl⟩ := ite_some_none_eq_some.mp completed
    exact sized.portWritten
  case h_5 =>
    obtain rfl := some.inj completed
    exact sized.restartRound
  case h_6 =>
    obtain rfl := some.inj completed
    exact sized.searchRound
  case h_7 =>
    obtain rfl := some.inj completed
    exact sized.moreRound
  case h_8 => cases completed

end Steps

/-- If no packet that is sent leaves a rest whose frame has to be filled up, then every frame that
`ipeth_send` and `ipeth_restart_send` offer to Ethernet is legal, and no assertion on a result
fails. -/
theorem frames_legal (port : EthPort) (inputs : List EthInput) (s : IpEth)
    (run : Run (ethStep port) (RestsFit port) {} inputs s) : FramesLegal s := by
  have start : Sized port.address {} := by
    refine ⟨fun offer member => ?_, fun wrong => ?_, fun id pack found => ?_⟩
    · cases member
    · cases wrong
    · cases found
  have sized := run.invariant start fun s input s' sized fits completed =>
    sized.step fits completed
  exact ⟨sized.legal, sized.result⟩

/-! ### Two packets -/

/-- A packet of UDP with the given number of zeros behind its header. -/
def zeroPacket (size : Nat) : List UInt8 :=
  [0x45, 0, .ofNat ((size + 20) / 256), .ofNat (size + 20), 0, 1, 0, 0, 64, 17, 0, 0, 10, 0, 0, 1,
    10, 0, 0, 2] ++ List.replicate size 0

/-- The port 10.0.0.1 of a class A network. -/
def etherPort : EthPort := ⟨0x0100000a, 0xff, 0, fun _ => 0⟩

/-- A packet to a neighbour whose Ethernet address is known, and two rounds of
`ipeth_restart_send`. -/
def splitSend (size : Nat) : List EthInput :=
  [.send 0x0200000a (zeroPacket size) false 0 ⟨.ok 1, false⟩ false, .loop false, .loop false]

/-- The length of what is left of a packet. -/
def restLength (pack : List UInt8) : Option Nat :=
  match ipSplitPack 0 ethMss pack with
  | some (some (_, second)) => some second.length
  | _ => none

theorem rest_of_1580 : RestsLong 0 (zeroPacket 1580) := by
  have length : restLength (zeroPacket 1580) = some 120 := by decide +kernel
  unfold restLength at length
  rintro rest (⟨split⟩ | ⟨split, again⟩)
  · rw [split] at length
    rw [some.inj length]
    decide
  · rw [split] at length
    exact absurd again (not_remainder ((some.inj length).trans_le (by decide)))

/-- Of 1600 bytes the last 120 go in a frame of their own. -/
theorem split_frames_legal : ∃ s, Run (ethStep etherPort) (RestsFit etherPort) {}
    (splitSend 1580) s ∧ s.offers = [⟨134, 134⟩, ⟨1514, 1514⟩] ∧ FramesLegal s := by
  have completed : (execute (ethStep etherPort) (fun _ _ => True) (splitSend 1580) {}).map
      (·.offers) = some [⟨134, 134⟩, ⟨1514, 1514⟩] := by decide +kernel
  obtain ⟨s, executed, offers⟩ := Option.map_eq_some_iff.mp completed
  have run : Run (ethStep etherPort) (RestsFit etherPort) {} (splitSend 1580) s := by
    refine (Run.of_execute executed).weaken fun state input member _ => ?_
    cases member with
    | head => exact rest_of_1580
    | tail _ member =>
      cases member with
      | head => trivial
      | tail _ member =>
        cases member with
        | head => trivial
        | tail _ member => cases member
  exact ⟨s, run, offers, frames_legal etherPort (splitSend 1580) s run⟩

/-- Of 1520 bytes the last 40 are filled up, but their count is still that of 54 bytes. -/
theorem short_frame_offered : ∃ s, Run (ethStep etherPort) (fun _ _ => True) {} (splitSend 1500) s ∧
    s.offers = [⟨54, 60⟩, ⟨1514, 1514⟩] ∧ ¬FramesLegal s := by
  have completed : (execute (ethStep etherPort) (fun _ _ => True) (splitSend 1500) {}).map
      (fun s => (s.offers, s.failed)) = some ([⟨54, 60⟩, ⟨1514, 1514⟩], some .result) := by
    decide +kernel
  obtain ⟨s, executed, result⟩ := Option.map_eq_some_iff.mp completed
  obtain ⟨offers, failed⟩ := Prod.mk.inj result
  exact ⟨s, .of_execute executed, offers, fun legal => legal.2 failed⟩

end Minix.Inet
