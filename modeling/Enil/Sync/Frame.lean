import Enil.Sync.Process
import Enil.Db.Frame

/-!
# What a delivery leaves alone

The steps after the savepoint change columns of stored messages only; the
savepoint body is made of statements, so that a failure undoes it.
-/

namespace Enil

open Lib Lib.Sql Db

theorem built_decryptOneMessage (cj : Cjson) (msg : Json) (result : DecryptResult) :
    Built RowUpdate (decryptOneMessage cj msg result) := by
  unfold decryptOneMessage
  split
  · exact .pure _
  · refine .ite (.exec (rowUpdate_update _ _)) ?_
    split
    · exact .pure _
    all_goals exact .exec (rowUpdate_update _ _)

theorem built_storeMediaInfo (id chatId : String) (info : MediaInfo) :
    Built RowUpdate (storeMediaInfo id chatId info) :=
  .ite (built_setMediaInfo _ _ _) (.pure _)

theorem built_syncOneMessageMedia (id : String) (outcome : MediaOutcome) :
    Built RowUpdate (syncOneMessageMedia id outcome) := by
  refine .ite (.pure _) (.bind (.query _) fun r => ?_)
  split
  · split
    · exact built_storeMediaInfo _ _ _
    · exact .bind (built_setMediaInfo _ _ _) fun _ => .ite (.pure _) (built_storeMediaInfo _ _ _)
    · exact built_setMediaInfo _ _ _
  · exact .pure _

theorem built_scanAndDecrypt (cj : Cjson) (remote : Remote) (msg : Json) (m : TalkMessage) :
    Built RowUpdate (scanAndDecrypt cj remote msg m) :=
  .ite (.pure _) <| .bind (built_messageHasPlaintext _) fun _ =>
    .ite (.pure _) (.bind (built_decryptOneMessage _ _ _) fun _ => .pure _)

theorem built_fetchMedia (remote : Remote) (msg : Json) (m : TalkMessage) :
    Built RowUpdate (fetchMedia remote msg m) :=
  .ite (built_syncOneMessageMedia _ _) (.pure _)

/-- The steps after the savepoint keep the boxes and the stored ids. -/
theorem built_sseMessageRest (cj : Cjson) (remote : Remote) (msg : Json) (m : TalkMessage) :
    Built RowUpdate (sseMessageRest cj remote msg m) := by
  exact .bind (built_scanAndDecrypt _ _ _ _) fun _ => .bind (built_fetchMedia _ _ _) fun _ => .pure _

theorem built_sseMessage (cj : Cjson) (msg : Json) (m : TalkMessage) (chatId : String)
    (myMid : Option String) : Built (fun _ => True) (sseMessage cj msg m chatId myMid) :=
  .bind (built_messageBoxUpsertLiveMessage _ _ _ _ _ _) fun _ =>
    .ite (.pure _) (built_messageUpsert _ _)

end Enil
