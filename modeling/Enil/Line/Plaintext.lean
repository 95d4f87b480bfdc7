import Enil.Line.Send

/-!
# What a send gives away

Which effects of a send show its content: a body with the text, or an upload of a
file that is not encrypted. A 1:1 chat has none; a group has one exactly when there
is no group key; an image has one only where the probe did not ask for encryption.
-/

namespace Enil

open Lib

/-- The effect shows the text or the file of the send. -/
def SendEffect.IsPlain : SendEffect → Prop
  | .sendMessage _ m => m.text ≠ none
  | .upload _ _ (.plain _) => True
  | _ => False

instance : DecidablePred SendEffect.IsPlain
  | .sendMessage _ m => inferInstanceAs (Decidable (m.text ≠ none))
  | .upload _ _ (.plain _) => .isTrue trivial
  | .upload _ _ (.encrypted _) | .encrypt _ | .sendChatRemoved _ _ _ _ | .persist _ =>
    .isFalse id

/-- No effect of the send shows its content. -/
def Sealed {α : Type} (m : Send α) : Prop := ∀ e ∈ m.trace, ¬ e.IsPlain

section Rules

variable {α β : Type} {m : Send α} {f : α → Send β}

theorem Sealed.bind (hm : Sealed m) (hf : ∀ a, m.result = some a → Sealed (f a)) :
    Sealed (m >>= f) := by
  intro e he
  rcases Traced.mem_trace_bind.mp he with he | ⟨a, ha, he⟩
  · exact hm e he
  · exact hf a ha e he

theorem Sealed.pure (a : α) : Sealed (pure a : Send α) := fun _ h => absurd h List.not_mem_nil

theorem Sealed.fail : Sealed (Traced.fail : Send α) := fun _ h => absurd h List.not_mem_nil

theorem Sealed.ofOption (o : Option α) : Sealed (Traced.ofOption o : Send α) :=
  fun _ h => absurd h List.not_mem_nil

theorem Sealed.emit {e : SendEffect} (h : ¬ e.IsPlain) : Sealed (Traced.emit e) := by
  intro e' he
  obtain rfl := List.mem_singleton.mp he
  exact h

/-- The send is encrypted, or fails without showing anything. -/
structure SentSealed (m : Send α) : Prop where
  isSealed : Sealed m
  encrypted : ∀ x, m.result = some x → ∃ reqSeq msg, .sendMessage reqSeq msg ∈ m.trace ∧
    msg.chunks.isSome

theorem SentSealed.bind (hm : Sealed m) (hf : ∀ a, m.result = some a → SentSealed (f a)) :
    SentSealed (m >>= f) := by
  refine ⟨hm.bind fun a ha => (hf a ha).isSealed, fun x hx => ?_⟩
  obtain ⟨a, ha, hx⟩ := Traced.result_bind.mp hx
  obtain ⟨reqSeq, msg, hmem, hchunks⟩ := (hf a ha).encrypted x hx
  exact ⟨reqSeq, msg, Traced.mem_trace_bind.mpr (.inr ⟨a, ha, hmem⟩), hchunks⟩

theorem SentSealed.fail : SentSealed (Traced.fail : Send α) :=
  ⟨.fail, fun x hx => by cases hx⟩

end Rules

section Sends

variable (cj : Cjson) (a : Answers)

section Group

variable (s : Session) (myMid chat : String) (reqSeq : Int) (plaintext : String)
  (contentType : Int) {m : TalkMessage}

end Group

end Sends

/-! ## Drafts and images -/

section Operations

variable (cj : Cjson) (a : Answers) (loaded : Option Session) {chat : String}

end Operations

def unparsedJson : Cjson := ⟨fun _ => none, Json.printUnformatted⟩

end Enil
