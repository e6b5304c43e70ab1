import Hyperion.Plugin.Leaves

/-!
# Rights of plugins

The tokens ever minted for plugins, along a run of calls. `update` reuses the token of the first equal
permission, so a token of a permission that was requested twice falls out of the table while it is live;
a call that fails half-way leaves tokens that no table has; and `uninstall` does not revoke the sandbox
token.
-/

namespace Hyperion.Plugin
open Lib Capability List CapabilityMonitor HashMap Option Host PluginRegistry

/-! ## Tokens that were minted -/

/-- What is known of all the tokens that were minted. -/
structure Book (p : Process) (next : PluginId) (minted : List Minted) : Prop where
  wf : p.monitor.graph.WellFormed p.next
  token : ∀ m ∈ minted, m.token.generation = 0 ∧ m.token.rights.contains .grant = false ∧ m.pluginId < next
  leaf : ∀ m ∈ minted, ∃ k, LeafAt p.monitor.graph m.token k
  nodup : (minted.map (·.token.tokenId)).Nodup

namespace Book
variable {p p' : Process} {next next' : PluginId} {minted new : List Minted}

section
variable (B : Book p next minted)
include B

theorem inj {m m' : Minted} (hm : m ∈ minted) (hm' : m' ∈ minted)
    (h : m.token.tokenId = m'.token.tokenId) : m = m' :=
  inj_on_of_nodup_map B.nodup hm hm' h

theorem lt_next {m : Minted} (hm : m ∈ minted) : m.token.tokenId < p.next := by
  obtain ⟨k, hk⟩ := B.leaf m hm
  exact LeafAt.lt_next B.wf hk

theorem mono (hnext : next ≤ next') : Book p next' minted where
  wf := B.wf
  token m hm := ⟨(B.token m hm).1, (B.token m hm).2.1, (B.token m hm).2.2.trans_le hnext⟩
  leaf := B.leaf
  nodup := B.nodup

theorem grow (hgrown : Grown p p' (new.map (·.token)))
    (hnew : ∀ m ∈ new, m.pluginId < next) : Book p' next (minted ++ new) where
  wf := hgrown.wf
  token m hm := by
    rcases mem_append.mp hm with hm | hm
    · exact B.token m hm
    · obtain ⟨hgeneration, hgrant, -⟩ := hgrown.fresh _ (mem_map_of_mem hm)
      exact ⟨hgeneration, hgrant, hnew m hm⟩
  leaf m hm := by
    rcases mem_append.mp hm with hm | hm
    · obtain ⟨k, hk⟩ := B.leaf m hm
      exact ⟨k, hgrown.keeps _ _ hk (B.token m hm).2.1⟩
    · exact ⟨0, hgrown.leaf _ (mem_map_of_mem hm)⟩
  nodup := by
    rw [map_append]
    refine nodup_append.mpr ⟨B.nodup, ?_, ?_⟩
    · simpa only [List.map_map, Function.comp_def] using hgrown.nodup
    · rintro id hid id' hid' rfl
      obtain ⟨m, hm, rfl⟩ := List.mem_map.mp hid
      obtain ⟨m', hm', heq⟩ := mem_map.mp hid'
      have hle := (hgrown.fresh _ (mem_map_of_mem hm')).2.2
      exact absurd (B.lt_next hm) (not_lt.mpr (heq ▸ hle))

variable {tokens : List CapabilityToken} {id : PluginId}

theorem nodup_ids (hnodup : tokens.Nodup)
    (hminted : ∀ t ∈ tokens, ⟨id, false, t⟩ ∈ minted) : (tokens.map (·.tokenId)).Nodup := by
  refine hnodup.map_on fun t ht t' ht' heq => ?_
  exact (Minted.mk.inj (B.inj (hminted t ht) (hminted t' ht') heq)).2.2

theorem revokeAll
    (hnodup : tokens.Nodup) (hminted : ∀ t ∈ tokens, ⟨id, false, t⟩ ∈ minted ∧ LeafAt p.monitor.graph t 0) :
    Book (Plugin.revokeAll p tokens) next minted ∧
      (∀ t ∈ tokens, LeafAt (Plugin.revokeAll p tokens).monitor.graph t 1) ∧
      ∀ m ∈ minted, m ∉ tokens.map (⟨id, false, ·⟩) → ∀ k, LeafAt p.monitor.graph m.token k →
        LeafAt (Plugin.revokeAll p tokens).monitor.graph m.token k := by
  obtain ⟨hnext, hwf, hdead, hkept⟩ := revokeAll_spec tokens B.wf (fun t ht => (hminted t ht).2)
    (B.nodup_ids hnodup fun t ht => (hminted t ht).1)
  have hother : ∀ m ∈ minted, m ∉ tokens.map (⟨id, false, ·⟩) → ∀ k, LeafAt p.monitor.graph m.token k →
      LeafAt (Plugin.revokeAll p tokens).monitor.graph m.token k := by
    intro m hm hout k hk
    refine hk.congr (hkept _ fun hin => hout ?_)
    obtain ⟨t, ht, heq⟩ := mem_map.mp hin
    exact mem_map.mpr ⟨t, ht, B.inj (hminted t ht).1 hm heq⟩
  refine ⟨⟨hnext ▸ hwf, B.token, fun m hm => ?_, B.nodup⟩, hdead, hother⟩
  by_cases hin : m ∈ tokens.map (⟨id, false, ·⟩)
  · obtain ⟨t, ht, rfl⟩ := mem_map.mp hin
    exact ⟨1, hdead t ht⟩
  · obtain ⟨k, hk⟩ := B.leaf m hm
    exact ⟨k, hother m hm hin k hk⟩

end

end Book

theorem map_token (id : PluginId) (sandbox : Bool) (tokens : List CapabilityToken) :
    (tokens.map (⟨id, sandbox, ·⟩ : _ → Minted)).map (·.token) = tokens := by
  rw [List.map_map, Function.comp_def, List.map_id']

/-! ## Tables -/

section
variable {K : SignatureScheme} {F : Type} {boundary : TrustBoundaryId} {now : Nat → Instant}
  {admin : CapabilityToken}

def OnePerPermission (manifest : PluginManifest K F) (tokens : List CapabilityToken) : Prop :=
  List.Forall₂ (fun request t => t.rights = rightsFor request.operation) manifest.requestedPermissions
    tokens ∧ tokens.Nodup

/-- What holds between what the tables have for a plugin and the tokens that were minted. -/
structure Entry (p : Process) (next : PluginId) (minted : List Minted) (uninstalled : List PluginId)
    (id : PluginId) (manifest : Option (PluginManifest K F)) (held : Option (List CapabilityToken)) : Prop where
  table : ∀ ts, held = some ts → id < next ∧ (∃ m, manifest = some m ∧ OnePerPermission m ts) ∧
    ∀ t ∈ ts, ⟨id, false, t⟩ ∈ minted ∧ LeafAt p.monitor.graph t 0
  installed : ∀ m, manifest = some m → ∃ ts, held = some ts
  dropped : ∀ m ∈ minted, m.pluginId = id → m.sandbox = false → ∀ ts, held = some ts → m.token ∉ ts →
    LeafAt p.monitor.graph m.token 1
  ended : id ∈ uninstalled → id < next ∧ held = none ∧
    ∀ m ∈ minted, m.pluginId = id → LeafAt p.monitor.graph m.token 1

/-- The tables agree with the tokens that were minted, for the plugins in `here`. -/
structure Tally (here : PluginId → Prop) (p : Process) (plugins : HashMap PluginId (PluginManifest K F))
    (tokens : HashMap PluginId (List CapabilityToken)) (next : PluginId) (minted : List Minted)
    (uninstalled : List PluginId) : Prop where
  book : Book p next minted
  entry : ∀ id, here id → Entry p next minted uninstalled id plugins[id]? tokens[id]?

section
variable {p p' : Process} {next next' id : PluginId} {minted minted' : List Minted}
  {uninstalled : List PluginId} {manifest : Option (PluginManifest K F)} {held : Option (List CapabilityToken)}
  (E : Entry p next minted uninstalled id manifest held)
include E

theorem Entry.mono (hnext : next ≤ next') : Entry p next' minted uninstalled id manifest held where
  table ts hts := (E.table ts hts).imp_left (·.trans_le hnext)
  installed := E.installed
  dropped := E.dropped
  ended hun := (E.ended hun).imp_left (·.trans_le hnext)

theorem Entry.keeps (hminted : ∀ m, m.pluginId = id → (m ∈ minted' ↔ m ∈ minted))
    (hkept : ∀ m ∈ minted, m.pluginId = id → ∀ k, LeafAt p.monitor.graph m.token k →
      LeafAt p'.monitor.graph m.token k) : Entry p' next minted' uninstalled id manifest held where
  table ts hts := by
    obtain ⟨hlt, hmanifest, hall⟩ := E.table ts hts
    refine ⟨hlt, hmanifest, fun t ht => ⟨(hminted _ rfl).mpr (hall t ht).1, ?_⟩⟩
    exact hkept _ (hall t ht).1 rfl 0 (hall t ht).2
  installed := E.installed
  dropped m hm hid hsandbox ts hts hout := by
    have hold := (hminted m hid).mp hm
    exact hkept m hold hid 1 (E.dropped m hold hid hsandbox ts hts hout)
  ended hun := by
    obtain ⟨hlt, hnone, hall⟩ := E.ended hun
    refine ⟨hlt, hnone, fun m hm hid => ?_⟩
    have hold := (hminted m hid).mp hm
    exact hkept m hold hid 1 (hall m hold hid)

end

namespace Tally
variable {p p' : Process} {plugins : HashMap PluginId (PluginManifest K F)}
  {tokens : HashMap PluginId (List CapabilityToken)} {next next' id : PluginId} {minted : List Minted}
  {uninstalled : List PluginId} {ts : List CapabilityToken} {manifest : PluginManifest K F}

theorem but (T : Tally (fun _ => True) p plugins tokens next minted uninstalled) (here : PluginId → Prop)
    (hnext : next ≤ next') : Tally here p plugins tokens next' minted uninstalled :=
  ⟨T.book.mono hnext, fun id _ => (T.entry id trivial).mono hnext⟩

section
variable (T : Tally (· ≠ id) p plugins tokens next minted uninstalled)
include T

/-- The tokens of the other plugins stay as they are. -/
theorem keeps {minted' : List Minted} (hbook : Book p' next minted')
    (hminted : ∀ m, m.pluginId ≠ id → (m ∈ minted' ↔ m ∈ minted)) (hkept : ∀ m ∈ minted, m.pluginId ≠ id →
      ∀ k, LeafAt p.monitor.graph m.token k → LeafAt p'.monitor.graph m.token k) :
    Tally (· ≠ id) p' plugins tokens next minted' uninstalled :=
  ⟨hbook, fun i hi => (T.entry i hi).keeps (fun m hm => hminted m (hm ▸ hi)) fun m hold hm =>
    hkept m hold (hm ▸ hi)⟩

theorem grow (hid : id < next)
    (new : List Minted) (hgrown : Grown p p' (new.map (·.token))) (hnew : ∀ m ∈ new, m.pluginId = id) :
    Tally (· ≠ id) p' plugins tokens next (minted ++ new) uninstalled := by
  refine T.keeps (T.book.grow hgrown fun m hm => hnew m hm ▸ hid) (fun m hne => ?_) fun m hm _ k hk => ?_
  · rw [mem_append, or_iff_left fun hm => hne (hnew m hm)]
  · exact hgrown.keeps _ _ hk (T.book.token _ hm).2.1

theorem revokeAll (hnodup : ts.Nodup)
    (hminted : ∀ t ∈ ts, ⟨id, false, t⟩ ∈ minted ∧ LeafAt p.monitor.graph t 0) :
    Tally (· ≠ id) (Plugin.revokeAll p ts) plugins tokens next minted uninstalled := by
  obtain ⟨hbook, -, hkept⟩ := T.book.revokeAll hnodup hminted
  refine T.keeps hbook (fun _ _ => .rfl) fun m hm hne => hkept m hm fun hin => hne ?_
  obtain ⟨t, -, rfl⟩ := mem_map.mp hin
  rfl

theorem restore (hplugin : plugins[id]? = none) (htokens : tokens[id]? = none) (hun : id ∉ uninstalled) :
    Tally (fun _ => True) p plugins tokens next minted uninstalled where
  book := T.book
  entry i _ := by
    by_cases hi : i = id
    · subst hi
      rw [hplugin, htokens]
      exact ⟨nofun, nofun, fun _ _ _ _ => nofun, fun h => absurd h hun⟩
    · exact T.entry i hi

theorem insert (hid : id < next) (hun : id ∉ uninstalled) (hone : OnePerPermission manifest ts)
    (hall : ∀ t ∈ ts, ⟨id, false, t⟩ ∈ minted ∧ LeafAt p.monitor.graph t 0)
    (hrest : ∀ m ∈ minted, m.pluginId = id → m.sandbox = false → m.token ∉ ts →
      LeafAt p.monitor.graph m.token 1) :
    Tally (fun _ => True) p (plugins.insert id manifest) (tokens.insert id ts) next minted uninstalled where
  book := T.book
  entry i _ := by
    rw [get_insert, get_insert]
    by_cases hi : id = i
    · subst hi
      rw [if_pos rfl, if_pos rfl]
      refine ⟨?_, fun _ _ => ⟨ts, rfl⟩, ?_, fun h => absurd h hun⟩
      · rintro _ ⟨⟩
        exact ⟨hid, ⟨manifest, rfl, hone⟩, hall⟩
      · rintro m hm hmid hsandbox _ ⟨⟩
        exact hrest m hm hmid hsandbox
    · rw [if_neg hi, if_neg hi]
      exact T.entry i (Ne.symm hi)

theorem erase (hid : id < next) (hall : ∀ m ∈ minted, m.pluginId = id → LeafAt p.monitor.graph m.token 1) :
    Tally (fun _ => True) p (plugins.erase id) (tokens.erase id) next minted (id :: uninstalled) where
  book := T.book
  entry i _ := by
    rw [get_erase, get_erase]
    by_cases hi : id = i
    · subst hi
      rw [if_pos rfl, if_pos rfl]
      exact ⟨nofun, nofun, fun _ _ _ _ => nofun, fun _ => ⟨hid, rfl, hall⟩⟩
    · rw [if_neg hi, if_neg hi]
      have E := T.entry i (Ne.symm hi)
      exact ⟨E.table, E.installed, E.dropped, fun h => E.ended ((mem_cons.mp h).resolve_left (Ne.symm hi))⟩

end

variable {new : List Minted}

theorem enroll (T : Tally (fun _ => True) p plugins tokens next minted uninstalled)
    (hgrown : Grown p p' (new.map (·.token))) (hnew : ∀ m ∈ new, m.pluginId = next)
    (hone : OnePerPermission manifest ts) (hall : ∀ t, ⟨next, false, t⟩ ∈ new ↔ t ∈ ts) :
    Tally (fun _ => True) p' (plugins.insert next manifest) (tokens.insert next ts) (next + 1)
      (minted ++ new) uninstalled := by
  refine ((T.but _ (Nat.le_succ next)).grow (Nat.lt_succ_self next) new hgrown hnew).insert
    (Nat.lt_succ_self next) (fun hun => ?_) hone (fun t ht => ?_) fun m hm hid hsandbox hout => ?_
  · exact absurd ((T.entry next trivial).ended hun).1 (lt_irrefl _)
  · have hmem := (hall t).mpr ht
    exact ⟨mem_append_right _ hmem, hgrown.leaf t (mem_map_of_mem hmem)⟩
  · rcases mem_append.mp hm with hm | hm
    · exact absurd hid (T.book.token m hm).2.2.ne
    · obtain ⟨pluginId, sandbox, t⟩ := m
      cases hid
      cases hsandbox
      exact absurd ((hall t).mp hm) hout

theorem failed (T : Tally (fun _ => True) p plugins tokens next minted uninstalled)
    (hgrown : Grown p p' (new.map (·.token))) (hnew : ∀ m ∈ new, m.pluginId = next) :
    Tally (fun _ => True) p' plugins tokens (next + 1) (minted ++ new) uninstalled := by
  have hfresh : ∀ ts, tokens[next]? ≠ some ts := fun ts hts =>
    absurd ((T.entry next trivial).table ts hts).1 (lt_irrefl _)
  refine ((T.but _ (Nat.le_succ next)).grow (Nat.lt_succ_self next) new hgrown hnew).restore ?_ ?_ ?_
  · refine eq_none_iff_forall_ne_some.mpr fun manifest hmanifest => ?_
    obtain ⟨ts, hts⟩ := (T.entry next trivial).installed manifest hmanifest
    exact hfresh ts hts
  · exact eq_none_iff_forall_ne_some.mpr hfresh
  · exact fun hun => absurd ((T.entry next trivial).ended hun).1 (lt_irrefl _)

end Tally

/-! ## Updating -/

/-- No permission that an update keeps is requested twice. -/
def Unrepeated (old new : List CapabilityGrantRequest) : Prop :=
  ((old.map grantKey).filter (· ∈ new.map grantKey)).Nodup ∧
    ((new.map grantKey).filter (· ∈ old.map grantKey)).Nodup

instance (old new : List CapabilityGrantRequest) : Decidable (Unrepeated old new) :=
  inferInstanceAs (Decidable (_ ∧ _))

theorem droppedTokens_nodup {held : List (CapabilityGrantRequest × CapabilityToken)}
    (h : (held.map (·.2)).Nodup) (grants : List CapabilityGrantRequest) :
    (droppedTokens held grants).Nodup :=
  h.sublist (filter_sublist.map _)

theorem zip_held {requests : List CapabilityGrantRequest} {ts : List CapabilityToken}
    (h : List.Forall₂ (fun request t => t.rights = rightsFor request.operation) requests ts) :
    (requests.zip ts).map (·.2) = ts ∧
      ((requests.zip ts).map fun h => grantKey h.1) = requests.map grantKey ∧
      ∀ h ∈ requests.zip ts, h.2.rights = rightsFor h.1.operation := by
  induction h with
  | nil => simp
  | cons hfirst _ ih =>
    obtain ⟨hsnd, hfst, hrights⟩ := ih
    simp only [zip_cons_cons, map_cons, hsnd, hfst, forall_mem_cons, hfirst, true_and]
    exact hrights

theorem mem_carryOver_iff {admin t : CapabilityToken}
    {held : List (CapabilityGrantRequest × CapabilityToken)} {grants : List CapabilityGrantRequest}
    {p : Process} (hnodup : (held.map (·.2)).Nodup)
    (honce : ((held.map fun h => grantKey h.1).filter (· ∈ grants.map grantKey)).Nodup)
    (hnone : (carryOver admin boundary held now grants p).fault = none) :
    t ∈ (carryOver admin boundary held now grants p).tokens ↔
      t ∈ (carryOver admin boundary held now grants p).minted ∨
        t ∈ held.map (·.2) ∧ t ∉ droppedTokens held grants := by
  rw [mem_carryOver_tokens hnone, reused_iff honce]
  refine or_congr_right ⟨?_, ?_⟩
  · rintro ⟨o, ho, hkey⟩
    refine ⟨mem_map_of_mem (f := (·.2)) ho, fun hdropped => ?_⟩
    obtain ⟨o', ho', hout⟩ := mem_droppedTokens.mp hdropped
    have hsame : (o', t) = (o, t) := inj_on_of_nodup_map hnodup ho' ho rfl
    rw [(Prod.mk.inj hsame).1] at hout
    exact hout hkey
  · rintro ⟨hin, hkept⟩
    obtain ⟨⟨o, t'⟩, ho, rfl⟩ := mem_map.mp hin
    by_contra hno
    exact hkept (mem_droppedTokens.mpr ⟨o, ho, fun hkey => hno ⟨o, ho, hkey⟩⟩)

namespace Tally
variable {p p' : Process} {plugins : HashMap PluginId (PluginManifest K F)}
  {tokens : HashMap PluginId (List CapabilityToken)} {next id : PluginId} {minted : List Minted}
  {uninstalled : List PluginId} {old manifest : PluginManifest K F}
  {hs : List (CapabilityGrantRequest × CapabilityToken)}

section
variable (T : Tally (fun _ => True) p plugins tokens next minted uninstalled)
include T

theorem held (hplugin : plugins[id]? = some old) :
    ∃ ts, tokens[id]? = some ts ∧ id < next ∧ OnePerPermission old ts ∧
      ∀ t ∈ ts, ⟨id, false, t⟩ ∈ minted ∧ LeafAt p.monitor.graph t 0 := by
  obtain ⟨ts, hts⟩ := (T.entry id trivial).installed old hplugin
  obtain ⟨hlt, ⟨manifest, hmanifest, hone⟩, hall⟩ := (T.entry id trivial).table ts hts
  rw [hplugin, some.injEq] at hmanifest
  exact ⟨ts, hts, hlt, hmanifest ▸ hone, hall⟩

theorem replace (hid : id < next) {p₁ : Process} {ts ts' new dropped sandbox : List CapabilityToken}
    (hts : tokens[id]? = some ts) (hall : ∀ t ∈ ts, ⟨id, false, t⟩ ∈ minted ∧ LeafAt p.monitor.graph t 0)
    (hgrown : Grown p p₁ new) (hnodup : dropped.Nodup) (hdropped : ∀ t ∈ dropped, t ∈ ts)
    (hsandbox : Grown (Plugin.revokeAll p₁ dropped) p' sandbox) (hone : OnePerPermission manifest ts')
    (hts' : ∀ t, t ∈ ts' ↔ t ∈ new ∨ t ∈ ts ∧ t ∉ dropped) :
    Tally (fun _ => True) p' (plugins.insert id manifest) (tokens.insert id ts') next
      (minted ++ new.map (⟨id, false, ·⟩) ++ sandbox.map (⟨id, true, ·⟩)) uninstalled := by
  have hun : id ∉ uninstalled := fun hun => by
    obtain ⟨-, hnone, -⟩ := (T.entry id trivial).ended hun
    rw [hts] at hnone
    cases hnone
  -- The three stages: minting, revoking, minting for the sandbox.
  have T₁ := (T.but (· ≠ id) (le_refl next)).grow hid (new.map (⟨id, false, ·⟩))
    (by rwa [map_token]) (by simp)
  have hheld : ∀ t ∈ ts, ⟨id, false, t⟩ ∈ minted ++ new.map (⟨id, false, ·⟩) ∧
      LeafAt p₁.monitor.graph t 0 := fun t ht =>
    ⟨mem_append_left _ (hall t ht).1,
      hgrown.keeps t 0 (hall t ht).2 (T.book.token _ (hall t ht).1).2.1⟩
  obtain ⟨B₂, hdead, hkept⟩ := T₁.book.revokeAll hnodup fun t ht => hheld t (hdropped t ht)
  have T₂ := T₁.revokeAll hnodup fun t ht => hheld t (hdropped t ht)
  have hlast : ∀ m ∈ minted ++ new.map (⟨id, false, ·⟩), ∀ k,
      LeafAt (Plugin.revokeAll p₁ dropped).monitor.graph m.token k → LeafAt p'.monitor.graph m.token k :=
    fun m hm k hk => hsandbox.keeps _ k hk (B₂.token m hm).2.1
  have hkept' : ∀ m ∈ minted ++ new.map (⟨id, false, ·⟩), m.token ∉ dropped → ∀ k,
      LeafAt p₁.monitor.graph m.token k → LeafAt p'.monitor.graph m.token k := by
    intro m hm hout k hk
    refine hlast m hm k (hkept m hm (fun hin => hout ?_) k hk)
    obtain ⟨t, ht, rfl⟩ := mem_map.mp hin
    exact ht
  refine (T₂.grow hid (sandbox.map (⟨id, true, ·⟩))
    (by rwa [map_token]) (by simp)).insert hid hun hone
    (fun t ht => ?_) fun m hm hmid hperm hout => ?_
  · rcases (hts' t).mp ht with hnew | ⟨hin, hout⟩
    · have hmem : (⟨id, false, t⟩ : Minted) ∈ minted ++ new.map (⟨id, false, ·⟩) :=
        mem_append_right _ (mem_map_of_mem hnew)
      refine ⟨mem_append_left _ hmem, hkept' _ hmem (fun hdrop => ?_) 0 (hgrown.leaf t hnew)⟩
      have hlt := T.book.lt_next (hall t (hdropped t hdrop)).1
      exact absurd hlt (not_lt.mpr (hgrown.fresh t hnew).2.2)
    · exact ⟨mem_append_left _ (hheld t hin).1, hkept' _ (hheld t hin).1 hout 0 (hheld t hin).2⟩
  · rcases mem_append.mp hm with hm' | hm'
    · rcases mem_append.mp hm' with hmold | hmnew
      · by_cases hin : m.token ∈ dropped
        · exact hlast m hm' 1 (hdead _ hin)
        · have hnot : m.token ∉ ts := fun h => hout ((hts' _).mpr (.inr ⟨h, hin⟩))
          have hone := (T.entry id trivial).dropped m hmold hmid hperm ts hts hnot
          exact hkept' m hm' hin 1 (hgrown.keeps _ 1 hone (T.book.token m hmold).2.1)
      · obtain ⟨t, ht, rfl⟩ := mem_map.mp hmnew
        exact absurd ((hts' t).mpr (.inl ht)) hout
    · obtain ⟨t, -, rfl⟩ := mem_map.mp hm'
      cases hperm

theorem carryOver (hplugin : plugins[id]? = some old) {admin : CapabilityToken} {boundary : TrustBoundaryId}
    {now : Nat → Instant} {carried : CarryOver}
    {sandbox : List CapabilityToken} (hgrant : admin.rights.contains .grant = true)
    (hheld : hs = old.requestedPermissions.zip (tokens[id]?.getD []))
    (hcarried : carryOver admin boundary hs now manifest.requestedPermissions p = carried)
    (hnone : carried.fault = none) (honce : Unrepeated old.requestedPermissions manifest.requestedPermissions)
    (hsandbox : Grown (Plugin.revokeAll carried.process (droppedTokens hs manifest.requestedPermissions)) p'
      sandbox) :
    Tally (fun _ => True) p' (plugins.insert id manifest) (tokens.insert id carried.tokens) next
      (minted ++ carried.minted.map (⟨id, false, ·⟩) ++ sandbox.map (⟨id, true, ·⟩)) uninstalled := by
  obtain ⟨ts, hts, hid, hone, hall⟩ := T.held hplugin
  rw [hts, getD_some] at hheld
  obtain ⟨hsnd, hfst, hrights⟩ := zip_held hone.1
  rw [← hheld] at hsnd hfst hrights
  obtain ⟨hold, hnew⟩ := honce
  rw [← hfst] at hold hnew
  have hnodup : (hs.map (·.2)).Nodup := hsnd ▸ hone.2
  have hmem : ∀ o t, (o, t) ∈ hs → t ∈ ts := fun o t h => hsnd ▸ mem_map_of_mem (f := (·.2)) h
  subst hcarried
  refine T.replace hid hts hall (carryOver_grown hgrant T.book.wf) (droppedTokens_nodup hnodup _)
    (fun t ht => ?_) hsandbox ⟨carryOver_rights hrights hnone, ?_⟩ fun t => ?_
  · obtain ⟨o, ho, -⟩ := mem_droppedTokens.mp ht
    exact hmem o t ho
  · refine nodup_carryOver_tokens hgrant T.book.wf hnodup (fun h hh => ?_) hnew hnone
    exact T.book.lt_next (hall h.2 (hmem h.1 h.2 hh)).1
  · rw [mem_carryOver_iff hnodup hold hnone, hsnd]

theorem uninstall {ts : List CapabilityToken} (hts : tokens[id]? = some ts)
    (hsandbox : ∀ m ∈ minted, m.pluginId = id → m.sandbox = false) :
    Tally (fun _ => True) (Plugin.revokeAll p ts) (plugins.erase id) (tokens.erase id) next minted
      (id :: uninstalled) := by
  obtain ⟨hid, ⟨manifest, -, hone⟩, hall⟩ := (T.entry id trivial).table ts hts
  have T₁ := (T.but (· ≠ id) (le_refl next)).revokeAll hone.2 hall
  obtain ⟨-, hdead, hkept⟩ := T.book.revokeAll hone.2 hall
  refine T₁.erase hid fun m hm hmid => ?_
  by_cases hin : m.token ∈ ts
  · exact hdead _ hin
  · have hended := (T.entry id trivial).dropped m hm hmid (hsandbox m hm hmid) ts hts hin
    refine hkept m hm (fun h => hin ?_) 1 hended
    obtain ⟨t, ht, rfl⟩ := mem_map.mp h
    exact ht

end

end Tally

/-! ## Runs -/

/-- A host, with every token that was minted for a plugin and every plugin that was uninstalled. -/
structure Watched (K : SignatureScheme) (F : Type) where
  host : Host K F
  minted : List Minted
  uninstalled : List PluginId

/-- The plugin that a call uninstalls, if it succeeds. -/
def uninstalledBy (host : Host K F) : PluginCall K F → List PluginId
  | .uninstall now admin pluginId =>
    match (host.uninstall now admin pluginId).1 with
    | .ok _ => [pluginId]
    | .error _ => []
  | .install _ | .update _ | .quarantine _ => []

namespace Watched

def exec (w : Watched K F) (call : PluginCall K F) : Watched K F :=
  ⟨(call.exec w.host).1, w.minted ++ (call.exec w.host).2, uninstalledBy w.host call ++ w.uninstalled⟩

def start (p : Process) : Watched K F := ⟨⟨p, .new⟩, [], []⟩

def Tallied (w : Watched K F) : Prop :=
  Tally (fun _ => True) w.host.process w.host.registry.plugins w.host.registry.tokens
    w.host.registry.nextPluginId w.minted w.uninstalled

/-- Nothing that was minted for a plugin that was uninstalled is live, and the permission tokens of an
installed plugin that are live are exactly one per permission of its manifest, but for those that have
expired. -/
structure Accounted (w : Watched K F) (now : Instant) : Prop where
  takenBack : ∀ m ∈ w.minted, m.pluginId ∈ w.uninstalled →
    w.host.process.monitor.isLive now m.token = false
  onePerPermission : ∀ (id : PluginId) (manifest : PluginManifest K F),
    w.host.registry.plugins[id]? = some manifest → ∃ tokens, OnePerPermission manifest tokens ∧
      ∀ t, ⟨id, false, t⟩ ∈ w.minted ∧ w.host.process.monitor.isLive now t = true ↔
        t ∈ tokens ∧ t.isExpired now = false

theorem Tallied.accounted {w : Watched K F} (T : w.Tallied) (now : Instant) : w.Accounted now := by
  refine ⟨fun m hm hun => ?_, fun id manifest hplugin => ?_⟩
  · have hleaf := ((T.entry _ trivial).ended hun).2.2 m hm rfl
    rw [← Bool.not_eq_true, hleaf.isLive_iff (T.book.token m hm).1]
    simp
  · obtain ⟨ts, hts, -, hone, hall⟩ := T.held hplugin
    refine ⟨ts, hone, fun t => ⟨?_, ?_⟩⟩
    · rintro ⟨hm, hlive⟩
      by_cases hin : t ∈ ts
      · exact ⟨hin, (((hall t hin).2.isLive_iff (T.book.token _ hm).1 now).mp hlive).2⟩
      · have hleaf := (T.entry id trivial).dropped _ hm rfl rfl ts hts hin
        exact absurd ((hleaf.isLive_iff (T.book.token _ hm).1 now).mp hlive).1 one_ne_zero
    · rintro ⟨hin, hexpired⟩
      obtain ⟨hm, hleaf⟩ := hall t hin
      exact ⟨hm, (hleaf.isLive_iff (T.book.token _ hm).1 now).mpr ⟨rfl, hexpired⟩⟩

end Watched

/-! ## Conditions -/

/-- The token of the administrator covers what is to be minted, and does not expire meanwhile. -/
def Affords (admin : CapabilityToken) (now : Nat → Instant) (grants requests : List CapabilityGrantRequest) :
    Prop :=
  (∀ k < requests.length, admin.isExpired (now k) = false) ∧
    ∀ g ∈ grants, admin.rights.contains (rightsFor g.operation) = true

instance (admin : CapabilityToken) (now : Nat → Instant) (grants requests : List CapabilityGrantRequest) :
    Decidable (Affords admin now grants requests) :=
  inferInstanceAs (Decidable (_ ∧ _))

/-- An update that is not refused a token for what is new in the manifest, nor for a new sandbox. -/
def UpdateCall.Funded (call : UpdateCall K F) (host : Host K F) (old : PluginManifest K F) : Prop :=
  Affords call.admin call.mintAt
      (newGrants old.requestedPermissions call.newManifest.requestedPermissions)
      call.newManifest.requestedPermissions ∧
    (needsSandboxToken call.newManifest = true →
      host.registry.sandboxTokens.contains call.pluginId = false →
        call.admin.rights.contains readWrite = true ∧ call.admin.isExpired call.sandboxAt = false)

instance (call : UpdateCall K F) (host : Host K F) (old : PluginManifest K F) :
    Decidable (call.Funded host old) :=
  inferInstanceAs (Decidable (_ ∧ _))

/-- An update keeps no permission that is requested twice and is not refused a token half-way; a plugin
that is uninstalled was never given a sandbox token; and numbers do not wrap. -/
def Tidy (w : Watched K F) : PluginCall K F → Prop
  | .install _ => w.host.registry.nextPluginId + 1 < 2 ^ 64
  | .update call => ∀ old ∈ w.host.registry.plugins[call.pluginId]?,
    Unrepeated old.requestedPermissions call.newManifest.requestedPermissions ∧ call.Funded w.host old
  | .uninstall _ _ pluginId => ∀ m ∈ w.minted, m.pluginId = pluginId → m.sandbox = false
  | .quarantine _ => True

instance decidableTidy (w : Watched K F) : ∀ call, Decidable (Tidy w call)
  | .install _ => inferInstanceAs (Decidable (_ < _))
  | .update _ => inferInstanceAs (Decidable (∀ old ∈ _, _ ∧ _))
  | .uninstall _ _ _ => inferInstanceAs (Decidable (∀ m ∈ _, _))
  | .quarantine _ => .isTrue trivial

/-! ## Steps -/

theorem InstallCall.Mints.onePerPermission {host : Host K F} {call : InstallCall K F}
    {tokens : List CapabilityToken} {p : Process} (h : call.Mints host tokens none p)
    (hgrown : Grown host.process p tokens) : OnePerPermission call.manifest tokens := by
  have hrights := mintAll_rights call.manifest.requestedPermissions call.mintAt (congrArg (·.2.1) h.mints)
  rw [h.mints] at hrights
  exact ⟨hrights, hgrown.nodup.of_map⟩

namespace Watched
variable {w : Watched K F}

theorem Tallied.install (T : w.Tallied) (call : InstallCall K F)
    (hnext : w.host.registry.nextPluginId + 1 < 2 ^ 64) : (w.exec (.install call)).Tallied := by
  unfold Tallied exec
  rw [uninstalledBy, nil_append, PluginCall.exec]
  have hcases := install_cases w.host call
  generalize w.host.install call = out at hcases ⊢
  have hcounted : w.host.registry.counted.nextPluginId = w.host.registry.nextPluginId + 1 :=
    Nat.mod_eq_of_lt hnext
  have hfailed : ∀ {p' : Process} {tokens : List CapabilityToken}, Grown w.host.process p' tokens →
      Tally (fun _ => True) p' w.host.registry.plugins w.host.registry.tokens
        w.host.registry.counted.nextPluginId
        (w.minted ++ tokens.map (⟨w.host.registry.nextPluginId, false, ·⟩)) w.uninstalled := by
    intro p' tokens hgrown
    rw [hcounted]
    exact T.failed (by rwa [map_token]) (by simp)
  cases hcases with
  | refused => rwa [append_nil]
  | faulted hmint | sandboxFaulted hmint => exact hfailed (hmint.grown T.book.wf)
  | sandboxed hmint hneeds hsandbox =>
    have hgrown := hmint.grown T.book.wf
    have hboth := hgrown.trans
      (mint_grown hgrown.wf (check_eq_ok hmint.check).2 readWrite_not_grant hsandbox)
    dsimp only [Host.enroll]
    rw [registerContributions_only]
    dsimp only
    rw [hcounted]
    refine T.enroll ?_ (fun m hm => ?_) (hmint.onePerPermission hgrown) fun t => ?_
    · rwa [map_append, map_token]
    · rcases mem_append.mp hm with hm | hm
      · obtain ⟨t, -, rfl⟩ := mem_map.mp hm
        rfl
      · rw [mem_singleton.mp hm]
    · simp
  | enrolled hmint =>
    have hgrown := hmint.grown T.book.wf
    dsimp only [Host.enroll]
    rw [registerContributions_only]
    dsimp only
    rw [hcounted]
    refine T.enroll ?_ (by simp) (hmint.onePerPermission hgrown) (by simp)
    rwa [map_token]

theorem Tallied.affords (T : w.Tallied) {call : UpdateCall K F} {old : PluginManifest K F}
    (hplugin : w.host.registry.plugins[call.pluginId]? = some old) (hfunded : call.Funded w.host old) :
    ∀ cost ∈ call.costs w.host old, affords call.admin cost = true := by
  obtain ⟨⟨hexpired, hcovers⟩, -⟩ := hfunded
  obtain ⟨ts, hts, -, hone, -⟩ := T.held hplugin
  obtain ⟨-, hfst, -⟩ := zip_held hone.1
  intro cost hcost
  obtain ⟨g, hg, hnone, hrights, k, hk, hat⟩ := mem_costs hcost
  rw [reusedToken_eq_none, heldTokens, hts, getD_some] at hnone
  have hnew : g ∈ newGrants old.requestedPermissions call.newManifest.requestedPermissions := by
    refine mem_filter.mpr ⟨hg, ?_⟩
    rw [Bool.not_eq_true', ← Bool.not_eq_true, List.any_eq_true]
    rintro ⟨o, ho, hequal⟩
    have hkey : grantKey o ∈ (old.requestedPermissions.zip ts).map fun h => grantKey h.1 :=
      hfst ▸ mem_map_of_mem ho
    obtain ⟨h, hh, hheq⟩ := mem_map.mp hkey
    exact hnone h hh (hheq.trans (grantsEqual_iff.mp hequal))
  rw [Plugin.affords, hrights, hcovers g hnew, hat, hexpired k hk]
  rfl

theorem Tallied.update (T : w.Tallied) (L : w.host.Leaves) (call : UpdateCall K F)
    (htidy : Tidy w (.update call)) : (w.exec (.update call)).Tallied := by
  unfold Tallied exec
  rw [uninstalledBy, nil_append, PluginCall.exec]
  have hcases := update_cases w.host call
  generalize w.host.update call = out at hcases ⊢
  cases hcases with
  | refused => rwa [append_nil]
  | faulted hcarried hfault =>
    obtain ⟨-, hfunded⟩ := htidy _ hcarried.plugin
    have hnone := (hcarried.fault_eq_none_iff L.wf).mpr (T.affords hcarried.plugin hfunded)
    rw [hfault] at hnone
    cases hnone
  | sandboxFaulted hcarried hnone hneeds habsent hfault =>
    obtain ⟨-, -, hsandbox⟩ := htidy _ hcarried.plugin
    obtain ⟨hcovers, hexpired⟩ := hsandbox hneeds habsent
    obtain ⟨t, p', hmint⟩ := L.exists_sandbox hcarried (by rw [Plugin.affords, hcovers, hexpired]; rfl)
    rw [hmint] at hfault
    cases hfault
  | replaced grants sandboxTokens hcarried hnone =>
    have h := T.carryOver hcarried.plugin (check_eq_ok hcarried.check).2 rfl hcarried.carries hnone
      (htidy _ hcarried.plugin).1 (.refl (L.changed hcarried).wf)
    rw [map_nil, append_nil] at h
    dsimp only [Host.replace]
    rw [changed_only]
    exact h
  | sandboxed grants hcarried hnone hmint =>
    have hgrant := (check_eq_ok hcarried.check).2
    have h := T.carryOver hcarried.plugin hgrant rfl hcarried.carries hnone (htidy _ hcarried.plugin).1
      (mint_grown (L.changed hcarried).wf hgrant readWrite_not_grant hmint)
    rw [append_assoc] at h
    dsimp only [Host.replace]
    rw [changed_only]
    exact h

theorem Tallied.uninstall (T : w.Tallied) (now : Instant) (admin : CapabilityToken) (pluginId : PluginId)
    (htidy : Tidy w (.uninstall now admin pluginId)) : (w.exec (.uninstall now admin pluginId)).Tallied := by
  unfold Tallied exec
  rw [uninstalledBy, PluginCall.exec, append_nil, Host.uninstall]
  split
  · exact T
  · split
    · exact T
    · next hts => exact Tally.uninstall T hts htidy

theorem Tallied.quarantine (T : w.Tallied) (pluginId : PluginId) :
    (w.exec (.quarantine pluginId)).Tallied := by
  unfold Tallied exec
  rw [uninstalledBy, PluginCall.exec, append_nil, nil_append, Host.quarantine]
  split
  · exact T
  · exact T

theorem Tallied.exec (T : w.Tallied) (L : w.host.Leaves) (call : PluginCall K F) (htidy : Tidy w call) :
    (w.exec call).Tallied := by
  cases call with
  | install call => exact T.install call htidy
  | update call => exact T.update L call htidy
  | uninstall now admin pluginId => exact T.uninstall now admin pluginId htidy
  | quarantine pluginId => exact T.quarantine pluginId

/-- What every state of a run has. -/
structure Sound (w : Watched K F) : Prop where
  tallied : w.Tallied
  leaves : w.host.Leaves

theorem tallied_start {p : Process} (W : p.monitor.graph.WellFormed p.next) :
    (start p : Watched K F).Tallied where
  book := ⟨W, by simp [start], by simp [start], nodup_nil⟩
  entry := fun _ _ => ⟨by simp [start, PluginRegistry.new], by simp [start, PluginRegistry.new], by simp [start],
    by simp [start]⟩

end Watched

/-- **Uninstall takes every right back**, and an installed plugin has one token per permission, in every
state of a run of tidy calls. -/
theorem rights_accounted {evs : List Event} {p : Process} (hreached : Reached evs p)
    (calls : List (PluginCall K F)) (htidy : Meets Watched.exec Tidy (Watched.start p) calls)
    (now : Instant) : (run Watched.exec (Watched.start p) calls).Accounted now := by
  have hinv : (run Watched.exec (Watched.start p) calls).Sound :=
    htidy.invariant (fun _ call S htidy => ⟨S.tallied.exec S.leaves call htidy, S.leaves.exec call⟩)
      ⟨Watched.tallied_start hreached.sound.wf, Host.leaves_new hreached.sound.wf⟩
  exact hinv.tallied.accounted now

end

/-! ## Samples -/

def adminRoot (rights : RightsMask) : CapabilityToken × CapabilityMonitor :=
  CapabilityMonitor.new.mintRoot 1 0 rights 7 none

def adminProcess (rights : RightsMask) : Process := ⟨2, (adminRoot rights).2⟩

theorem reached_adminProcess (rights : RightsMask) :
    Reached [.issued none (adminRoot rights).1] (adminProcess rights) :=
  .mintRoot 0 rights 7 none (.new 1) rfl

def readNotes : CapabilityGrantRequest := ⟨.read, "notes", "to read notes"⟩
def writeNotes : CapabilityGrantRequest := ⟨.write, "notes", "to write notes"⟩
def runTools : CapabilityGrantRequest := ⟨.execute, "tools", "to run tools"⟩

def samplePlugin (requested : List CapabilityGrantRequest) (contributions : List (Contribution ℚ)) :
    PluginManifest .tagged ℚ :=
  ⟨0, "acme", none, 1, contributions, requested, .d0⟩

def sampleInstall (admin : CapabilityToken) (manifest : PluginManifest .tagged ℚ) : PluginCall .tagged ℚ :=
  .install ⟨admin, 0, .ok (), manifest, .d3, true, fun _ => .ok (), fun _ => 0, 0⟩

def sampleUpdate (admin : CapabilityToken) (manifest : PluginManifest .tagged ℚ) : PluginCall .tagged ℚ :=
  .update ⟨admin, 0, 1, .ok (), manifest, .d3, true, fun _ => .ok (), fun _ => 0, 0⟩

/-- A plugin is installed, drops a permission for another, and is uninstalled. -/
def tidyPlugin : List (PluginCall .tagged ℚ) :=
  [sampleInstall (adminRoot .all).1 (samplePlugin [readNotes, writeNotes] []),
    sampleUpdate (adminRoot .all).1 (samplePlugin [writeNotes, runTools] []),
    .uninstall 0 (adminRoot .all).1 1]

theorem rights_accounted_tidy :
    (run Watched.exec (.start (adminProcess .all)) tidyPlugin).minted.length = 3 ∧
      (run Watched.exec (.start (adminProcess .all)) tidyPlugin).uninstalled = [1] ∧
      (run Watched.exec (.start (adminProcess .all)) tidyPlugin).Accounted 0 := by
  refine ⟨by decide +kernel, by decide +kernel, rights_accounted (reached_adminProcess .all) tidyPlugin ?_ 0⟩
  decide +kernel

/-- A plugin with a native binary is installed and uninstalled. -/
def sandboxedPlugin : List (PluginCall .tagged ℚ) :=
  [sampleInstall (adminRoot .all).1 (samplePlugin [] [.capability
      ⟨"count", ⟨[], [], []⟩, .nativeBinary, 1, 1, some ⟨[], [], none⟩, .local_, none⟩]),
    .uninstall 0 (adminRoot .all).1 1]

/-- A plugin that requests a permission twice is installed, updated to the same manifest, and uninstalled. -/
def repeatedPermission : List (PluginCall .tagged ℚ) :=
  [sampleInstall (adminRoot .all).1 (samplePlugin [readNotes, readNotes] []),
    sampleUpdate (adminRoot .all).1 (samplePlugin [readNotes, readNotes] []),
    .uninstall 0 (adminRoot .all).1 1]

def noExec : RightsMask := ⟨0b110111⟩

/-- An update is refused the second of two new tokens, and the plugin is uninstalled. -/
def refusedUpdate : List (PluginCall .tagged ℚ) :=
  [sampleInstall (adminRoot noExec).1 (samplePlugin [readNotes] []),
    sampleUpdate (adminRoot noExec).1 (samplePlugin [writeNotes, runTools] []),
    .uninstall 0 (adminRoot noExec).1 1]

theorem not_accounted {w : Watched .tagged ℚ} {now : Instant} (h : ∃ m ∈ w.minted,
    m.pluginId ∈ w.uninstalled ∧ w.host.process.monitor.isLive now m.token = true) : ¬ w.Accounted now := by
  rintro ⟨htaken, -⟩
  obtain ⟨m, hm, hun, hlive⟩ := h
  rw [htaken m hm hun] at hlive
  cases hlive

/-- **Tokens outlive their plugin**: the sandbox token, a token that was minted for a permission requested
twice, and one minted by an update that failed. -/
theorem tokens_outlive_plugin :
    ¬ (run Watched.exec (.start (adminProcess .all)) sandboxedPlugin).Accounted 0 ∧
      ¬ (run Watched.exec (.start (adminProcess .all)) repeatedPermission).Accounted 0 ∧
      ¬ (run Watched.exec (.start (adminProcess noExec)) refusedUpdate).Accounted 0 :=
  ⟨not_accounted (by decide +kernel), not_accounted (by decide +kernel), not_accounted (by decide +kernel)⟩

end Hyperion.Plugin
