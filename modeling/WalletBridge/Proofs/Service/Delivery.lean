import WalletBridge.Proofs.Request.Transaction
import WalletBridge.Proofs.Service.Turn

/-! # Messages carry what was accepted

A message that goes to the device for a body is made from the value that the
body was read as, after the check of that value, and says nothing else. The
bytes on the way to the device say the same, so nothing is lost or changed
between the body of a request and the device.
-/

namespace WalletBridge.Http

open Device Json Request

/-- What the message of an endpoint has from the body of a request. -/
inductive Carries (body : Bytes) : Endpoint → Device.Request → Prop where
  | generateAddresses {b : GenerateAddresses} {count : Nat} (accepted : Accepted body b)
      (hcount : b.addressCount = some count) (hrange : 1 ≤ count ∧ count ≤ 99)
      (hstart : "start_index" ∉ (Body.shape : Shape GenerateAddresses).given body →
        b.startIndex = 0)
      (hconfirm : "confirm_address" ∉ (Body.shape : Shape GenerateAddresses).given body →
        b.confirm = false) :
      Carries body .generateAddresses (.generateAddresses count b.startIndex b.confirm)
  | signMessage {b : Request.SignMessage} {index : Nat} {message : String}
      (accepted : Accepted body b) (hindex : b.addressIndex = some index)
      (hmessage : b.message = some message) :
      Carries body .signMessage (.signMessage index message)
  | checkMessageSignature {b : Request.CheckMessageSignature} {address message signature : String}
      (accepted : Accepted body b) (haddress : b.address = some address)
      (hmessage : b.message = some message) (hsignature : b.signature = some signature) :
      Carries body .checkMessageSignature (.checkMessageSignature address message signature)
  | transactionSign {b : Request.TransactionSign} {given : List TransactionInput}
      {wanted : List TransactionOutput} {inputs : List SignInput} {outputs : List SignOutput}
      (accepted : Accepted body b) (hgiven : b.inputs = some given)
      (hwanted : b.outputs = some wanted)
      (hinputs : List.Forall₂ TransactionInput.Becomes given inputs)
      (houtputs : List.Forall₂ TransactionOutput.Becomes wanted outputs)
      (hlengths : (1 ≤ inputs.length ∧ inputs.length ≤ 8) ∧
        1 ≤ outputs.length ∧ outputs.length ≤ 8) :
      Carries body .transactionSign (.transactionSign inputs outputs)

/-- The body is not what the endpoint wants: it is not read, or its check finds something wrong. -/
def Refuses (body : Bytes) : Endpoint → Prop
  | .generateAddresses => ∀ b : GenerateAddresses, ¬ Accepted body b
  | .signMessage => ∀ b : Request.SignMessage, ¬ Accepted body b
  | .checkMessageSignature => ∀ b : Request.CheckMessageSignature, ¬ Accepted body b
  | .transactionSign => ∀ b : Request.TransactionSign, ¬ Accepted body b
  | _ => False

/-- What holds of the messages of one request. -/
structure Turn.Delivered (t : Turn σ) : Prop where
  once : t.sent.length ≤ 1
  carried : ∀ e m, Endpoint.ofPath? t.request.path = some e → "POST" ∈ e.methods → m ∈ t.sent →
    Carries t.request.body e m
  written : ∀ m ∈ t.sent, Json.decode Device.Request.codec (Emulator.datagram m) = .ok m
  refused : ∀ e, Endpoint.ofPath? t.request.path = some e → Refuses t.request.body e → t.sent = []

theorem Carries.not_refuses {body : Bytes} {e : Endpoint} {m : Device.Request}
    (h : Carries body e m) : ¬ Refuses body e := by
  intro hrefuses
  cases h with
  | generateAddresses accepted => exact hrefuses _ accepted
  | signMessage accepted => exact hrefuses _ accepted
  | checkMessageSignature accepted => exact hrefuses _ accepted
  | transactionSign accepted => exact hrefuses _ accepted

/-! ## From the body to the message -/

theorem checkedBody_eq_ok [Body α] {r : HttpRequest} {a : α} (h : checkedBody α r = .ok a) :
    Accepted r.body a := by
  obtain ⟨b, hread, hvalid⟩ := bind_eq_ok h
  split at hvalid
  · rename_i u hu
    cases hvalid
    refine ⟨?_, hu⟩
    unfold readBody at hread
    split at hread
    · cases hread
    split at hread
    · cases hread
    split at hread
    · rename_i c hc
      cases hread
      exact hc
    · cases hread
  · cases hvalid

theorem orInvalid_eq_ok {result : Except Errors α} {a : α} (h : orInvalid result = .ok a) :
    result = .ok a := by
  cases result with
  | error errors => cases h
  | ok b =>
      cases h
      rfl

section
variable {r : HttpRequest} {c : Call}

theorem generateAddresses_call (h : Endpoint.generateAddresses.bodyCall r = .ok c) :
    Carries r.body .generateAddresses c.request ∧ c.request.Bounded := by
  obtain ⟨b, hb, hcall⟩ := bind_eq_ok h
  have haccepted := checkedBody_eq_ok hb
  obtain ⟨count, hcount, hrange⟩ := GenerateAddresses.count_of_valid haccepted.valid
  have hbounded := GenerateAddresses.bounded_of_read haccepted.read
  cases hcall
  rw [hcount]
  exact ⟨.generateAddresses haccepted hcount hrange
      (GenerateAddresses.startIndex_lacking haccepted.read)
      (GenerateAddresses.confirm_lacking haccepted.read),
    hbounded.count count hcount, hbounded.start⟩

theorem signMessage_call (h : Endpoint.signMessage.bodyCall r = .ok c) :
    Carries r.body .signMessage c.request ∧ c.request.Bounded := by
  obtain ⟨b, hb, hcall⟩ := bind_eq_ok h
  have haccepted := checkedBody_eq_ok hb
  obtain ⟨index, message, hindex, hmessage⟩ := Request.SignMessage.parts_of_valid haccepted.valid
  cases hcall
  rw [hindex, hmessage]
  exact ⟨.signMessage haccepted hindex hmessage,
    Request.SignMessage.index_of_read haccepted.read index hindex⟩

theorem checkMessageSignature_call (h : Endpoint.checkMessageSignature.bodyCall r = .ok c) :
    Carries r.body .checkMessageSignature c.request ∧ c.request.Bounded := by
  obtain ⟨b, hb, hcall⟩ := bind_eq_ok h
  have haccepted := checkedBody_eq_ok hb
  obtain ⟨address, message, signature, haddress, hmessage, hsignature⟩ :=
    Request.CheckMessageSignature.parts_of_valid haccepted.valid
  cases hcall
  rw [haddress, hmessage, hsignature]
  exact ⟨.checkMessageSignature haccepted haddress hmessage hsignature, trivial⟩

theorem transactionSign_call (h : Endpoint.transactionSign.bodyCall r = .ok c) :
    Carries r.body .transactionSign c.request ∧ c.request.Bounded := by
  obtain ⟨b, hb, hcall⟩ := bind_eq_ok h
  obtain ⟨inputs, hinputs, hcall⟩ := bind_eq_ok hcall
  obtain ⟨outputs, houtputs, hcall⟩ := bind_eq_ok hcall
  have haccepted := checkedBody_eq_ok hb
  have hbounded := Request.TransactionSign.bounded_of_read haccepted.read
  obtain ⟨given, wanted, hgiven, hwanted, hins, houts⟩ :=
    Request.TransactionSign.parts_of_valid haccepted.valid
  have hin := orInvalid_eq_ok hinputs
  have hout := orInvalid_eq_ok houtputs
  rw [hgiven, Option.getD_some] at hin
  rw [hwanted, Option.getD_some] at hout
  obtain ⟨hinputsMade, hinputsBounded⟩ := toSignInputs_eq_ok hin
  obtain ⟨houtputsMade, houtputsBounded⟩ := toSignOutputs_eq_ok (hbounded wanted hwanted) hout
  rw [hinputsMade.length_eq] at hins
  rw [houtputsMade.length_eq] at houts
  cases hcall
  exact ⟨.transactionSign haccepted hgiven hwanted hinputsMade houtputsMade ⟨hins, houts⟩,
    hinputsBounded, houtputsBounded⟩

end

theorem Endpoint.bodyCall_of_job {e : Endpoint} {r : HttpRequest} {c : Call}
    (h : e.job r = .ok (.call c)) : e.bodyCall r = .ok c := by
  have hmap : (e.bodyCall r).map Job.call = .ok (.call c) := by
    cases e with
    | csrf | version => cases h
    | _ => exact h
  obtain ⟨made, hcall, heq⟩ := map_eq_ok hmap
  cases heq
  exact hcall

theorem Endpoint.job_carries {e : Endpoint} {r : HttpRequest} {c : Call}
    (hpost : "POST" ∈ e.methods) (h : e.job r = .ok (.call c)) :
    Carries r.body e c.request ∧ c.request.Bounded := by
  have hcall := bodyCall_of_job h
  cases e with
  | generateAddresses => exact generateAddresses_call hcall
  | signMessage => exact signMessage_call hcall
  | checkMessageSignature => exact checkMessageSignature_call hcall
  | transactionSign => exact transactionSign_call hcall
  | _ => exact absurd hpost (by decide)

theorem Endpoint.job_bounded {e : Endpoint} {r : HttpRequest} {c : Call}
    (h : e.job r = .ok (.call c)) : c.request.Bounded := by
  by_cases hpost : "POST" ∈ e.methods
  · exact (job_carries hpost h).2
  · cases e with
    | available | features | cancel | wipe =>
        cases h
        trivial
    | csrf | version => cases h
    | _ => exact absurd (by decide) hpost

theorem post_of_refuses {body : Bytes} {e : Endpoint} (h : Refuses body e) :
    "POST" ∈ e.methods := by
  cases e with
  | generateAddresses | signMessage | checkMessageSignature | transactionSign => decide
  | _ => exact h.elim

/-! ## Runs -/

section
variable {site : Site} {link : Link σ} {s : State σ} {a : Arrival}

theorem delivered_turn : (turn site link s a).Delivered := by
  have hcarried : ∀ e m, Endpoint.ofPath? a.request.path = some e → "POST" ∈ e.methods →
      m ∈ (turn site link s a).sent → Carries a.request.body e m := by
    intro e m hpath hpost hm
    obtain ⟨e', c, hadm, rfl⟩ := mem_turn_sent hm
    obtain rfl : e = e' := Option.some.inj (hpath.symm.trans hadm.path)
    exact (Endpoint.job_carries hpost hadm.job).1
  refine ⟨turn_sent_length_le, hcarried, ?_, ?_⟩
  · intro m hm
    obtain ⟨e, c, hadm, rfl⟩ := mem_turn_sent hm
    exact Device.Request.decode_datagram (Endpoint.job_bounded hadm.job)
  · intro e hpath hrefuses
    refine List.eq_nil_iff_forall_not_mem.mpr fun m hm => ?_
    exact (hcarried e m hpath (post_of_refuses hrefuses) hm).not_refuses hrefuses

end

/-- In every run, whatever reaches the device for a body is what that body asks for, and a body
that is not accepted sends nothing. -/
theorem run_delivered (site : Site) (link : Link σ) (s : State σ) {arrivals : List Arrival}
    {earlier later : List (Turn σ)} {t : Turn σ}
    (hrun : run site link s arrivals = earlier ++ t :: later) : t.Delivered := by
  rw [run_turn hrun]
  exact delivered_turn

/-- A transaction with one input and one output reaches the device with its amounts as numbers. -/
theorem run_delivered_transaction :
    let site := Site.make ⟨.v4 127 0 0 1, 9510⟩ { disableHeaderCheck := true, enableCsrf := false }
    let body := Text.utf8 ("\x7b\"transaction_inputs\":[\x7b\"hash\":\"a\",\"index\":7\x7d],"
      ++ "\"transaction_outputs\":[\x7b\"address\":\"b\",\"coins\":\"12\","
      ++ "\"hours\":\"+03\"\x7d]\x7d")
    let s : State Script := { link := ⟨[], []⟩ }
    let a : Arrival := ⟨⟨0, "", ""⟩,
      ⟨"POST", "/api/v1/transaction_sign", [("Content-Type", Text.utf8 "application/json")], body⟩⟩
    let t := turn site Script.link s a
    t.sent = [.transactionSign [⟨"a", 7⟩] [⟨"b", 12, 3, none⟩]] ∧ t.Delivered := by
  intro site body s a t
  have hrun : run site Script.link s [a] = [] ++ t :: [] := rfl
  exact ⟨by decide +kernel, run_delivered site Script.link s hrun⟩

end WalletBridge.Http
