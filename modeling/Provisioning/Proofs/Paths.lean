import Provisioning.Proofs.Facade

/-!
# The path of a request does not show

A resource that offers every operation is compared with one that can only replace: the same facade
in front of them, the same requests, the same documents at first. Two states are `Alike` if they
hold the same documents and no failure is armed. Each request leads from alike states to alike
states and the same result, so whole runs agree (`runs_agree`).
-/
namespace Provisioning.Memory

/-- Whether the new object of a request, if it makes one, is given its uid by a naming attribute
with a single text. -/
def GivesUid : Invocation → Prop
  | .create _ attributes _ => (givenUid? attributes).isSome = true
  | _ => True

/-- States with the same documents, in which no failure is armed. -/
structure Alike (m n : Memory) : Prop where
  documents : m.documents = n.documents
  armed : ∀ op, m.armed op = none
  armed' : ∀ op, n.armed op = none

theorem reaches_full {config : Config} {m : Memory} (ha : ∀ op, m.armed op = none)
    (r : Invocation) : Reaches .full config m r := by
  have hadmits (op : Operation) : Admits .full m op := ⟨rfl, ha op⟩
  cases r <;> exact hadmits _

theorem reaches_replaceOnly {config : Config} (hconfig : config.emulateDeltas = true) {m : Memory}
    (ha : ∀ op, m.armed op = none) (r : Invocation) : Reaches .replaceOnly config m r := by
  have hadmits {op : Operation} (hs : Capabilities.replaceOnly.supports op = true) :
      Admits .replaceOnly m op := ⟨hs, ha op⟩
  cases r with
  | changeValues mode cls uid vs o => exact ⟨hadmits rfl, hadmits rfl⟩
  | updateDelta cls uid ds o => exact ⟨hconfig, hadmits rfl, hadmits rfl⟩
  | _ => exact hadmits rfl

/-- A request that gives its object a uid does not depend on the uids that are made up. -/
theorem serveChecked_congr (config : Config) (docs : Documents) (u v : Uid) {r : Invocation}
    (hr : GivesUid r) : docs.serveChecked config u r = docs.serveChecked config v r := by
  cases r with
  | create cls as o =>
    have huid : Documents.uidOf u as = Documents.uidOf v as := by
      unfold Documents.uidOf
      cases hgiven : givenUid? as with
      | none =>
        rw [GivesUid, hgiven] at hr
        cases hr
      | some text => rfl
    simp only [Documents.serveChecked, Documents.serve, Documents.create, huid]
  | _ => rfl

section

variable (fresh fresh' : Nat → Uid) {config : Config}

/-- One request of alike resources. -/
theorem perform_agrees (hconfig : config.emulateDeltas = true) {m n : Memory} (h : Alike m n)
    {r : Invocation} (hr : GivesUid r) :
    ((facade .full fresh config).perform r m).result =
        ((facade .replaceOnly fresh' config).perform r n).result ∧
      Alike ((facade .full fresh config).perform r m).state
        ((facade .replaceOnly fresh' config).perform r n).state := by
  obtain ⟨hdocuments, ha, ha'⟩ := h
  have hfull := (facade_serves .full fresh config m r).answers (reaches_full ha r)
  have hreplace := (facade_serves .replaceOnly fresh' config n r).answers
    (reaches_replaceOnly hconfig ha' r)
  rw [← hdocuments, serveChecked_congr config m.documents _ (fresh m.generated) hr] at hreplace
  refine ⟨hfull.result.trans hreplace.result.symm, ?_, ?_, ?_⟩
  · rw [hfull.documents, hreplace.documents, hdocuments]
  · rw [hfull.armed]
    exact ha
  · rw [hreplace.armed]
    exact ha'

/-- The same requests have the same results on both resources, and after each of them both hold the
same documents. -/
theorem runs_agree (hconfig : config.emulateDeltas = true)
    {rs : List Invocation} (hrs : ∀ r ∈ rs, GivesUid r) {m n : Memory}
    (hdocuments : ∀ key, m.store.get? key = n.store.get? key) (ha : ∀ op, m.armed op = none)
    (ha' : ∀ op, n.armed op = none) :
    List.Forall₂
      (fun t u => t.outcome.result = u.outcome.result ∧
        ∀ key, t.outcome.state.store.get? key = u.outcome.state.store.get? key)
      ((facade .full fresh config).history rs m)
      ((facade .replaceOnly fresh' config).history rs n) := by
  have halike : Alike m n := ⟨funext hdocuments, ha, ha'⟩
  clear hdocuments ha ha'
  induction rs generalizing m n with
  | nil => exact .nil
  | cons r rs ih =>
    obtain ⟨hresult, hnext⟩ := perform_agrees fresh fresh' hconfig halike (hrs r List.mem_cons_self)
    refine .cons ⟨hresult, fun key => congrFun hnext.documents key⟩ ?_
    exact ih (fun r hr => hrs r (List.mem_cons_of_mem _ hr)) hnext

/-- An account is made, gets a second address and loses the first, and is looked up. -/
def mailRun : List Invocation :=
  [.create .account ⟨login :: (mail ["bob@work"]).toList⟩ .default,
   .changeValues .add .account bob (mail ["bob@home"]) .default,
   .updateDelta .account bob
     ⟨[.complex ⟨"MAIL", by decide⟩ [.delete (some (.equalTo 0 (.string "bob@work")))]]⟩ .default,
   .getObject .account bob .default]

theorem mailRun_agrees :
    (∀ r ∈ mailRun, GivesUid r) ∧
      List.Forall₂
        (fun t u => t.outcome.result = u.outcome.result ∧
          ∀ key, t.outcome.state.store.get? key = u.outcome.state.store.get? key)
        ((facade .full (fun _ => bob) .default).history mailRun empty)
        ((facade .replaceOnly (fun _ => bob) .default).history mailRun empty) := by
  have hrs : ∀ r ∈ mailRun, GivesUid r := by
    intro r hr
    simp only [mailRun, List.mem_cons, List.not_mem_nil, or_false] at hr
    rcases hr with rfl | rfl | rfl | rfl
    · rfl
    · trivial
    · trivial
    · trivial
  exact ⟨hrs, runs_agree _ _ rfl hrs (fun _ => rfl) (fun _ => rfl) fun _ => rfl⟩

end

end Provisioning.Memory
