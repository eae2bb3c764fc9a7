import PhpAtlas.Proofs.Index.Frame
import PhpAtlas.Proofs.Index.Integrity

/-!
# Who declares the members of an indexed classlike

Each member names the classlike that declares it.  For the members that a classlike has by itself,
be they declared in its body, promoted from parameters of its constructor, or added by its
documentation, this is the classlike itself.

## Main definitions

* `ClasslikeSymbol.OwnsMembers` — the members of a classlike name it.
* `Tables.MembersOwned` — so do those of all indexed classlikes.

## Main results

* `Atlas.ownsMembers_classlikeOf` — the members of a declared classlike name it.
* `Tables.MembersOwned.write` — a request keeps this.
* `serve_membersOwned` — it holds after any requests to an empty index.
-/

namespace PhpAtlas

open Vault

/-- The members that a classlike has by itself name it as the one that declares them. -/
structure ClasslikeSymbol.OwnsMembers (c : ClasslikeSymbol) : Prop where
  constants : ∀ k ∈ c.constants, k.owner = c.full
  properties : ∀ p ∈ c.properties, p.owner = c.full
  methods : ∀ m ∈ c.methods, m.owner = c.full

/-! ### Declared classlikes -/

namespace Atlas

variable {a : Atlas} {site : Site} {owner : String} {member : Member Expr Stmt}

theorem owner_of_mem_constants {short : String} {k : ClassConstantSymbol}
    (h : k ∈ a.constants site owner short member) : k.owner = owner := by
  cases member with
  | constant =>
    obtain ⟨item, -, rfl⟩ := List.mem_map.1 h
    rfl
  | enumCase =>
    obtain rfl := List.mem_singleton.1 h
    rfl
  | _ => cases h

theorem owner_of_mem_properties {p : PropertySymbol} (h : p ∈ a.properties site owner member) :
    p.owner = owner := by
  cases member with
  | method d =>
    rw [properties] at h
    split at h
    · obtain ⟨parameter, -, rfl⟩ := List.mem_map.1 h
      rfl
    · cases h
  | property =>
    obtain ⟨item, -, rfl⟩ := List.mem_map.1 h
    rfl
  | _ => cases h

theorem owner_of_mem_methods {kind : ClassKind} {m : MethodSymbol}
    (h : m ∈ a.methods site owner kind member) : m.owner = owner := by
  cases member with
  | method d =>
    obtain rfl := List.mem_singleton.1 h
    rfl
  | _ => cases h

theorem ownsMembers_declaredClasslike (scope : ClassScope) (doc : Option NodeDoc)
    (d : ClassDecl Expr Stmt) : (a.declaredClasslike site scope doc d).OwnsMembers where
  constants k hk := by
    obtain ⟨member, -, hk⟩ := List.mem_flatMap.1 hk
    exact owner_of_mem_constants hk
  properties p hp := by
    obtain ⟨member, -, hp⟩ := List.mem_flatMap.1 hp
    exact owner_of_mem_properties hp
  methods m hm := by
    obtain ⟨member, -, hm⟩ := List.mem_flatMap.1 hm
    exact owner_of_mem_methods hm

theorem addProperty_ownsMembers {c : ClasslikeSymbol} (h : c.OwnsMembers) {p : PropertySymbol}
    (hp : p.owner = c.full) : (addProperty c p).OwnsMembers ∧ (addProperty c p).full = c.full := by
  unfold addProperty
  split
  · exact ⟨h, rfl⟩
  · refine ⟨{ h with properties := ?_ }, rfl⟩
    exact List.forall_mem_append.2 ⟨h.properties, List.forall_mem_singleton.2 hp⟩

theorem addMethod_ownsMembers {c : ClasslikeSymbol} (h : c.OwnsMembers) {m : MethodSymbol}
    (hm : m.owner = c.full) : (addMethod c m).OwnsMembers ∧ (addMethod c m).full = c.full := by
  unfold addMethod
  split
  · exact ⟨h, rfl⟩
  · refine ⟨{ h with methods := ?_ }, rfl⟩
    exact List.forall_mem_append.2 ⟨h.methods, List.forall_mem_singleton.2 hm⟩

theorem addMagic_ownsMembers {c : ClasslikeSymbol} (h : c.OwnsMembers) (doc : Option NodeDoc) :
    (a.addMagic site doc c).OwnsMembers := by
  unfold addMagic
  split
  · exact h
  · -- the name of the classlike stays, so that each added member names the classlike that results
    rename_i doc
    have hproperties := List.foldlRecOn (motive := fun d : ClasslikeSymbol =>
        d.OwnsMembers ∧ d.full = c.full)
      (doc.comment.properties.map (a.magicProperty site c.full doc.offset)) addProperty
      ⟨h, rfl⟩ fun d hd p hp => by
        obtain ⟨tag, -, rfl⟩ := List.mem_map.1 hp
        obtain ⟨howns, hfull⟩ := addProperty_ownsMembers hd.1
          (p := a.magicProperty site c.full doc.offset tag) hd.2.symm
        exact ⟨howns, hfull.trans hd.2⟩
    refine (List.foldlRecOn (motive := fun d : ClasslikeSymbol =>
      d.OwnsMembers ∧ d.full = c.full) _ addMethod hproperties fun d hd m hm => ?_).1
    obtain ⟨tag, -, rfl⟩ := List.mem_map.1 hm
    obtain ⟨howns, hfull⟩ := addMethod_ownsMembers hd.1
      (m := a.magicMethod site _ doc.offset tag) (hproperties.2.trans hd.2.symm)
    exact ⟨howns, hfull.trans hd.2⟩

theorem ownsMembers_classlikeOf (a : Atlas) (site : Site) (d : ClassDecl Expr Stmt) :
    (a.classlikeOf site d).OwnsMembers :=
  addMagic_ownsMembers (ownsMembers_declaredClasslike _ _ d) _

end Atlas

/-! ### Indexed classlikes -/

namespace Tables

variable {t : Tables}

/-- The members of all indexed classlikes name them. -/
def MembersOwned (t : Tables) : Prop := ∀ c, t.Holds (.classlike c) → c.OwnsMembers

theorem membersOwned_empty : MembersOwned empty := by
  intro c hc
  cases hc

theorem MembersOwned.deleteFile (h : t.MembersOwned) (path : String) :
    (t.deleteFile path).MembersOwned :=
  fun c hc => h c (holds_deleteFile.1 hc).1

theorem MembersOwned.withDocument (h : t.MembersOwned) (maxDepth : Nat) (doc : Document)
    (time : Nat) : (t.withDocument maxDepth doc time).MembersOwned := by
  intro c hc
  rcases holds_withDocument.1 hc with ⟨before, d, later, -, hd, -⟩ | ⟨hold, -⟩
  · cases d with
    | classlike decl =>
      obtain rfl := GlobalSymbol.classlike.inj hd
      exact Atlas.ownsMembers_classlikeOf _ _ decl
    | function | constant | defined => cases hd
  · exact h c hold

theorem MembersOwned.write (h : t.MembersOwned) (r : Request) : (r.write t).MembersOwned := by
  cases r with
  | index maxDepth doc time => exact h.withDocument maxDepth doc time
  | delete path => exact h.deleteFile path
  | prune disk => exact List.foldlRecOn _ _ h fun _ hs path _ => hs.deleteFile path

/-- What is found under any name is found under its own. -/
theorem MembersOwned.of_classlike? (h : t.MembersOwned) {name : String} {c : ClasslikeSymbol}
    (hc : t.classlike? name = some c) : c.OwnsMembers :=
  h c (KeyedTable.exists_get?_iff.1 ⟨_, hc⟩)

end Tables

/-- After any requests to an empty index, whichever entries fail, the members of all classlikes name
them. -/
theorem serve_membersOwned (v : Vault) (hempty : v.store = Store.empty) (hputs : v.OnlyPutsFail)
    (requests : List Request) : (v.serve requests).store.tables.MembersOwned :=
  (serve_keeps (fun _ r h => h.write r) hputs (by rw [hempty]; rfl)
    (by rw [hempty]; exact Tables.membersOwned_empty) requests).2

end PhpAtlas
