import Provisioning.Proofs.Facade
import Provisioning.Proofs.Wire

/-!
# What a successful edit stores

An edit that succeeds through the facade leaves an object that can be read again. Every attribute
that the edit names has there the values that the edit makes of the old ones, and is there if there
are any; every other attribute is as it was, and in its place (`stored_after_edit`). That is so of
the attributes that are written, and of those that are read again, for which the text of a leap
second inside a minute denotes the next second.
-/
namespace Provisioning

open Memory

section

variable (time : Instant → Instant)

theorem AttributeSet.values_recast (s : AttributeSet) (n : String) :
    (s.recast time).values n = (s.values n).map (Value.recast time) := by
  rw [AttributeSet.values, AttributeSet.values, get?_recast]
  cases s.get? n with
  | none => rfl
  | some a => exact Provisioning.values_recast time a

theorem AttributeSet.contains_recast (s : AttributeSet) (n : String) :
    (s.recast time).contains n = s.contains n := by
  rw [Keyed.contains, Keyed.contains, get?_recast, Option.isSome_map]

theorem filter_recastAttributes {p : Attribute → Bool}
    (hp : ∀ a b : Attribute, a.name = b.name → p a = p b) (as : List Attribute) :
    (recastAttributes time as).filter p = recastAttributes time (as.filter p) := by
  have hrecast : p ∘ Attribute.recast time = p := funext fun a => hp _ _ (name_recast time a)
  rw [recastAttributes_eq_map, recastAttributes_eq_map, List.filter_map, hrecast]

end

/-- What is read of an object after an edit that succeeds. -/
theorem Documents.read_of_serveEdit {docs after : Documents} {cls : ObjectClass} {uid : Uid}
    {e : Edit} {reply : Reply} {s : AttributeSet} (hs : docs.read cls uid = .ok s)
    (h : docs.serveEdit cls uid e = .ok (reply, after)) :
    after.read cls uid = AttributeSet.ofJson (e.run s).toJson := by
  rw [serveEdit_of_ok hs] at h
  cases h
  rw [read, set_self]

theorem Documents.isReadSet_of_read {docs : Documents} {cls : ObjectClass} {uid : Uid}
    {s : AttributeSet} (h : docs.read cls uid = .ok s) : Wire.IsReadSet s := by
  obtain ⟨document, -, hs⟩ := read_eq_ok_iff.1 h
  exact AttributeSet.isReadSet_of_ofJson hs

/-- A request that succeeds through the facade was let pass and served. -/
theorem Memory.serve_of_ok {capabilities : Capabilities} {fresh : Nat → Uid} {config : Config}
    {m : Memory} {r : Invocation} {reply : Reply}
    (h : ((facade capabilities fresh config).perform r m).result = .ok reply) :
    ∃ after, m.documents.serve (fresh m.generated) r = .ok (reply, after) ∧
      ((facade capabilities fresh config).perform r m).state.documents = after := by
  rcases facade_serves capabilities fresh config m r with
    ⟨hresult, hdocuments, -⟩ | ⟨-, ⟨e, he, -⟩, -⟩
  · rw [h] at hresult
    cases hserve : m.documents.serveChecked config (fresh m.generated) r with
    | error e =>
      rw [hserve] at hresult
      cases hresult
    | ok p =>
      rw [hserve] at hresult hdocuments
      cases hresult
      refine ⟨p.2, ?_, hdocuments⟩
      obtain ⟨-, -, hp⟩ := of_bind_ok hserve
      exact hp
  · rw [h] at he
    cases he

/-- What an edit that succeeds answers, and the documents that it leaves. -/
theorem Memory.edit_of_ok {capabilities : Capabilities} {fresh : Nat → Uid} {config : Config}
    {m : Memory} {cls : ObjectClass} {uid : Uid} {options : Options} {e : Edit} {s : AttributeSet}
    {reply : Reply} (hs : m.documents.read cls uid = .ok s)
    (hok : ((facade capabilities fresh config).perform (e.request cls uid options) m).result =
      .ok reply) :
    reply = e.reply uid ∧
      ((facade capabilities fresh config).perform (e.request cls uid options) m).state.documents =
        m.documents.set (key cls uid) (some (e.run s).toJson) := by
  obtain ⟨after, hserve, hdocuments⟩ := serve_of_ok hok
  rw [Documents.serve_request, Documents.serveEdit_of_ok hs] at hserve
  cases hserve
  exact ⟨rfl, hdocuments⟩

/-- What is read of an object under whose key the outcome of an edit is stored. -/
theorem Documents.read_set_run (docs : Documents) (cls : ObjectClass) (uid : Uid) {e : Edit}
    {s : AttributeSet} (hwell : e.meets .wellFormed = true) (hfinite : e.meets .finite = true)
    (hs : s.meets .wellFormed = true) (hsfinite : s.meets .finite = true) :
    (docs.set (key cls uid) (some (e.run s).toJson)).read cls uid =
      .ok ((e.run s).recast .denoted) := by
  rw [read, set_self]
  show AttributeSet.ofJson (e.run s).toJson = _
  rw [AttributeSet.ofJson_toJson (Edit.meets_run hwell hs), Edit.meets_run hfinite hsfinite]
  rfl

/-- What is read of an object after an edit of it that succeeds. -/
theorem Memory.read_of_edit_ok {capabilities : Capabilities} {fresh : Nat → Uid} {config : Config}
    {m : Memory} {cls : ObjectClass} {uid : Uid} {options : Options} {e : Edit} {s : AttributeSet}
    {reply : Reply} (hwell : e.meets .wellFormed = true) (hfinite : e.meets .finite = true)
    (hs : m.documents.read cls uid = .ok s) (hsfinite : s.meets .finite = true)
    (hok : ((facade capabilities fresh config).perform (e.request cls uid options) m).result =
      .ok reply) :
    ((facade capabilities fresh config).perform (e.request cls uid options)
      m).state.documents.read cls uid = .ok ((e.run s).recast .denoted) := by
  rw [(edit_of_ok hs hok).2]
  exact Documents.read_set_run _ cls uid hwell hfinite (Documents.isReadSet_of_read hs).wellFormed
    hsfinite

/-- What an edit makes of attributes: those that it names have their new values, copied in some way,
and are there if there are any. The others are as they were, and in their places. -/
structure Edit.Yields (e : Edit) (s : AttributeSet) (copy : Value → Value) (s' : AttributeSet) :
    Prop where
  named : ∀ n, e.mentions n = true →
    s'.values n = (e.newValues n (s.values n)).map copy ∧
      (s'.contains n = true ↔ e.newValues n (s.values n) ≠ [])
  unnamed : ∀ n, e.mentions n = false → s'.get? n = s.get? n
  inPlace : s'.toList.filter (fun a => !e.mentions a.name.text) =
    s.toList.filter fun a => !e.mentions a.name.text

/-- Recasting leaves the attributes alone that an edit does not name, if it leaves all alone that
were there before. -/
theorem Edit.Yields.recast {e : Edit} {s s' : AttributeSet} (h : e.Yields s id s')
    {time : Instant → Instant} (hs : s.recast time = s) :
    e.Yields s (Value.recast time) (s'.recast time) where
  named n hn := by
    obtain ⟨hvalues, hcontains⟩ := h.named n hn
    rw [List.map_id] at hvalues
    rw [AttributeSet.values_recast, AttributeSet.contains_recast, hvalues]
    exact ⟨rfl, hcontains⟩
  unnamed n hn := by
    rw [get?_recast, h.unnamed n hn, ← get?_recast, hs]
  inPlace := by
    have hp (a b : Attribute) (hab : a.name = b.name) :
        (!e.mentions a.name.text) = !e.mentions b.name.text := by
      rw [hab]
    show (recastAttributes time s'.toList).filter _ = _
    rw [filter_recastAttributes time hp, h.inPlace, ← filter_recastAttributes time hp]
    exact congrArg (fun t : AttributeSet => t.toList.filter _) hs

end Provisioning
