import Jdbx.Database.CacheCoherence

/-!
# Cached queries

Runs of `db_query_documents` without a write in between.  The cache key joins the
library, the collection and a hash of the query by colons, and the result of a query
is that of its library and its query alone.
-/

namespace Jdbx

open Library

variable {δ : Type} [CDouble δ]

def queryStep (db : Database δ) (one : AskedQuery δ) : Option (Database δ) :=
  (dbQueryDocuments db one.library one.collection one.query).map Prod.snd

def AnswersOwn (db : Database δ) (one : AskedQuery δ) : Prop :=
  (dbQueryDocuments db one.library one.collection one.query).map Prod.fst =
    (dbQueryDocuments db.cachesOff one.library one.collection one.query).map Prod.fst

theorem queryStep_coherent {asked : List (AskedQuery δ)} (separate : KeysSeparate asked) :
    Keeps queryStep (fun _ one => one ∈ asked ∧ True) (Coherent asked) := by
  intro db one next coherent member taken
  obtain ⟨⟨result, next⟩, queried, rfl⟩ := Option.map_eq_some_iff.mp taken
  exact (dbQueryDocuments_coherent coherent separate member.1 queried).1

/-- Where queries that share a key are the same query of the same library, each is
answered as without a cache. -/
theorem queries_answerOwn (documents : DocumentList) (asked : List (AskedQuery δ))
    (separate : KeysSeparate asked) :
    EveryStep queryStep AnswersOwn (freshDatabase documents) asked := by
  have anyRun : ∀ {events : List (AskedQuery δ)} {db : Database δ},
      EveryStep queryStep (fun _ _ => True) db events := by
    intro events
    induction events with
    | nil =>
        intro db
        trivial
    | cons one events ih =>
        intro db
        exact ⟨trivial, fun next _ => ih⟩
  apply EveryStep.of_keeps (queryStep_coherent separate) ?_ (coherent_freshDatabase _ documents)
    anyRun.and_mem
  intro db one coherent member
  have off := coherent_cachesOff asked db
  have switchedOff : (dbQueryDocuments db.cachesOff one.library one.collection one.query).map
      Prod.fst = currentResult db one.library one.query :=
    dbQueryDocuments_answer off member.1
  exact (dbQueryDocuments_answer coherent member.1).trans switchedOff.symm

/-- A stored document of the library `a:b`. -/
def colonDocuments : DocumentList :=
  skiplistInsert .empty (ascii "1") (ascii "\x7b\"library\":\"a:b\"\x7d")

def separateQueries : List (AskedQuery Rat) :=
  [{ library := ascii "a:b", collection := ascii "c", query := none },
    { library := ascii "a", collection := ascii "c", query := none },
    { library := ascii "a:b", collection := ascii "c", query := none }]

theorem queries_answerOwn_separateQueries :
    EveryStep queryStep AnswersOwn (freshDatabase colonDocuments) separateQueries := by
  apply queries_answerOwn
  have apart : (separateQueries[0]).cacheKey ≠ (separateQueries[1]).cacheKey := by
    decide +kernel
  intro one oneMember other otherMember _ sameKey
  simp only [separateQueries, List.mem_cons, List.not_mem_nil, or_false] at oneMember otherMember
  rcases oneMember with rfl | rfl | rfl <;> rcases otherMember with rfl | rfl | rfl
  · exact ⟨rfl, rfl⟩
  · exact absurd sameKey apart
  · exact ⟨rfl, rfl⟩
  · exact absurd sameKey.symm apart
  · exact ⟨rfl, rfl⟩
  · exact absurd sameKey.symm apart
  · exact ⟨rfl, rfl⟩
  · exact absurd sameKey apart
  · exact ⟨rfl, rfl⟩

def narrowQuery : AskedQuery Rat :=
  { library := ascii "a", collection := ascii "b:c", query := none }

def wideQuery : AskedQuery Rat :=
  { library := ascii "a:b", collection := ascii "c", query := none }

/-- The `count` of a query result. -/
def answeredCount (result : Option (JsonValue Rat)) : Option Int64 :=
  match result.bind fun result => jsonObjectGet result (ascii "count") with
  | some (.integer count) => some count
  | _ => none

/-- The query of the library `a` leaves its result to that of the library `a:b`. -/
theorem not_answersOwn_colon :
    ¬ EveryStep queryStep AnswersOwn (freshDatabase colonDocuments) [narrowQuery, wideQuery] := by
  intro everyStep
  have cached : ((queryStep (freshDatabase colonDocuments) narrowQuery).map fun db =>
      (answeredCount ((dbQueryDocuments db (ascii "a:b") (ascii "c") none).map Prod.fst),
        answeredCount ((dbQueryDocuments db.cachesOff (ascii "a:b") (ascii "c") none).map
          Prod.fst))) = some (some 0, some 1) := by
    decide +kernel
  obtain ⟨db, taken, counts⟩ := Option.map_eq_some_iff.mp cached
  obtain ⟨served, own⟩ := Prod.mk.inj counts
  have answers : AnswersOwn db wideQuery := (everyStep.2 db taken).1
  have same := congrArg answeredCount answers
  have differ : (some 0 : Option Int64) = some 1 := (served.symm.trans same).trans own
  cases differ

end Jdbx
