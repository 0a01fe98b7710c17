import Fastrak.Order.Controller
import Fastrak.Order.InvoiceEffect

/-!
# What an invoice charges

The gross price of the services is split into net lines, a net discount and a VAT line.
The price of the VAT line is what is left of the shipping fees after the lines that are
found by the names "Shipping Fees" and "Invoice Discount", so that the invoice adds up to
the shipping fees and to all that this search does not find. This holds when the two parts add
up to the fees in the arithmetic of the company; else the VAT line keeps the tax by the rate.

Prices are in floats: a price stands for a number of piastres, and is off by the error of the
arithmetic. In exact arithmetic this error is zero.
-/

namespace Fastrak

open Transaction Rounding

/-- What a line adds to an invoice; the price of the VAT line is the tax itself. -/
def InvoiceLine.charge (line : InvoiceLine) : ℚ :=
  if line.taxIds = [] then line.quantity * line.priceUnit else line.priceUnit

def charged (lines : List InvoiceLine) : ℚ := (lines.map InvoiceLine.charge).sum

theorem charged_append (xs ys : List InvoiceLine) :
    charged (xs ++ ys) = charged xs + charged ys := by
  rw [charged, List.map_append, List.sum_append, charged, charged]

/-- The error of the arithmetic on numbers up to a bound; `float_round` moves a number by less
than one. -/
structure Settings.Accurate (st : Settings) (error bound : ℚ) : Prop where
  arithmetic : st.arithmetic.ErrsAtMost error bound
  floatRoundUp : ∀ x, |x| ≤ bound → |st.floatRoundUp x - x| ≤ 1

/-- Exact arithmetic has no error. -/
example {st : Settings} (h : st.Exact) (bound : ℚ) : st.Accurate 0 bound where
  arithmetic := h.arithmetic ▸ Arithmetic.exact_errsAtMost bound
  floatRoundUp x _ := by
    rw [h.floatRoundUp]
    refine (abs_roundAway_sub_lt (by positivity) x).le.trans ?_
    norm_num

section Amounts

variable {st : Settings} {o : Order} {discount : Option ℚ} {error bound top : ℚ} {n : ℤ}

/-! ## Net prices -/

/-- The price of a line that charges `amount`, in piastres. -/
def Settings.netPiastres (st : Settings) (amount : ℚ) : ℤ :=
  halfEven <| (if st.activateVatCalculation then
    st.floatRoundUp (st.arithmetic.div amount st.taxPercentage) else amount) * 10 ^ 2

/-- A net price is a number of piastres, and hardly more than the gross price. -/
theorem Settings.netPrice_near (hst : st.Accurate error bound) (herror : error < 1 / 1000)
    (hrate : 0 ≤ st.taxRate) (hbound : 4 * (top + 1) ≤ bound) {amount : ℚ}
    (hamount : Near 2 error amount n) (htop : |(n : ℚ) / 10 ^ 2| ≤ top) :
    Near 2 error (st.netPrice amount) (st.netPiastres amount) ∧
      |(st.netPiastres amount : ℚ) / 10 ^ 2| ≤ 11 / 10 * (top + 1) := by
  have h0 := hamount.nonneg
  have hnonneg := abs_nonneg ((n : ℚ) / 10 ^ 2)
  have hle := hamount.abs_le
  unfold netPrice netPiastres
  split
  · -- the tax rate is not negative, so that the quotient is not above the amount
    have hone : 1 - error ≤ st.taxPercentage := by
      have hround := abs_le.mp (hst.arithmetic 1 (by rw [abs_one]; linarith))
      have hquotient := st.arithmetic.div_nonneg hrate (by norm_num : (0 : ℚ) ≤ 100)
      have hmono := st.arithmetic.mono (le_add_of_nonneg_left (a := 1) hquotient)
      rw [taxPercentage, Arithmetic.add]
      linarith [hround.1]
    have hquotient : |amount / st.taxPercentage| ≤ (top + error) / (999 / 1000) := by
      rw [abs_div, abs_of_pos (by linarith : 0 < st.taxPercentage)]
      exact div_le_div₀ (by linarith) (by linarith) (by norm_num) (by linarith)
    have hdiv := abs_le.mp (hst.arithmetic (amount / st.taxPercentage)
      (hquotient.trans (by linarith)))
    have hdiv' : |st.arithmetic.div amount st.taxPercentage| ≤
        (top + error) / (999 / 1000) + error := by
      rw [Arithmetic.div]
      rw [abs_le] at hquotient ⊢
      constructor <;> linarith [hquotient.1, hquotient.2, hdiv.1, hdiv.2]
    have hup := abs_le.mp (hst.floatRoundUp (st.arithmetic.div amount st.taxPercentage)
      (hdiv'.trans (by linarith)))
    have heven := abs_le.mp (abs_roundHalfEven_sub_le
      (st.floatRoundUp (st.arithmetic.div amount st.taxPercentage)) 2)
    have hnet : |roundHalfEven (st.floatRoundUp (st.arithmetic.div amount st.taxPercentage)) 2| ≤
        11 / 10 * (top + 1) := by
      rw [abs_le] at hdiv' ⊢
      constructor <;> linarith [hdiv'.1, hdiv'.2, hup.1, hup.2, heven.1, heven.2]
    refine ⟨?_, hnet⟩
    have hnear := hst.arithmetic.near (near_roundHalfEven _ 2) (hnet.trans (by linarith))
    rwa [add_zero] at hnear
  · rw [hamount.roundHalfEven_eq (by linarith)]
    exact ⟨hamount, by linarith⟩

/-- The sum of the net prices of the service lines. -/
def netServices (st : Settings) (o : Order) : ℚ :=
  (o.serviceLineIds.map fun line => st.netPrice line.amount).sum

/-- The net discount of an invoice. -/
def netDiscount (st : Settings) (discount : Option ℚ) : ℚ := (discount.map st.netPrice).getD 0

def netDiscountPiastres (st : Settings) (discount : Option ℚ) : ℤ :=
  (discount.map st.netPiastres).getD 0

/-- The discount line, if there is one, takes the net discount off. -/
theorem discountLines_cases (h : Invoiceable st o discount) :
    discountLines st discount = [] ∧ netDiscount st discount = 0 ∨
      ∃ product amount, discountLines st discount = [discountLine st product amount] ∧
        netDiscount st discount = st.netPrice amount := by
  cases discount with
  | none => exact .inl ⟨rfl, rfl⟩
  | some amount =>
      obtain ⟨product, hproduct, -⟩ := h.discountProduct (Option.some_ne_none amount)
      exact .inr ⟨product, amount, discountLines_of_singleton hproduct amount, rfl⟩

theorem charged_netLines (h : Invoiceable st o discount) :
    charged (netLines st o discount) = netServices st o - netDiscount st discount := by
  have hservices : charged (o.serviceLineIds.map (ServiceLine.invoiceLine st)) =
      netServices st o := by
    rw [charged, List.map_map]
    refine congrArg List.sum (List.map_congr_left fun line _ => ?_)
    simp [InvoiceLine.charge, ServiceLine.invoiceLine]
  have hdiscount : charged (discountLines st discount) = -netDiscount st discount := by
    rcases discountLines_cases h with ⟨hnil, hzero⟩ | ⟨product, amount, hsingle, hnet⟩
    · simp [hnil, hzero, charged]
    · simp [hsingle, hnet, charged, InvoiceLine.charge, discountLine]
  rw [netLines, charged_append, hservices, hdiscount, sub_eq_add_neg]

/-! ## The lines found by name -/

/-- The first service line with the given description. -/
def Order.foundLine (o : Order) (name : String) : Option ServiceLine :=
  o.serviceLineIds.find? (·.description = name)

theorem priceOfLine_netLines (h : Invoiceable st o discount) (name : String) :
    priceOfLine name (netLines st o discount) =
      ((o.foundLine name).map fun line => st.netPrice line.amount).getD
        (if name = "Invoice Discount" then -netDiscount st discount else 0) := by
  have hfind : (o.serviceLineIds.map (ServiceLine.invoiceLine st)).find? (·.name = name) =
      (o.foundLine name).map (ServiceLine.invoiceLine st) :=
    List.find?_map
  rw [priceOfLine, netLines, List.find?_append, hfind]
  cases o.foundLine name with
  | some line => rfl
  | none =>
      rcases discountLines_cases h with ⟨hnil, hzero⟩ | ⟨product, amount, hsingle, hnet⟩
      · simp [hnil, hzero]
      · by_cases hname : name = "Invoice Discount"
        · simp [hsingle, hnet, hname, discountLine]
        · simp [hsingle, Ne.symm hname, hname, discountLine]

def Order.foundType (o : Order) (name : String) : Option ServiceType :=
  (o.foundLine name).map (·.serviceType)

/-- What the VAT line finds of the other lines, in piastres. -/
def foundPiastres (st : Settings) (o : Order) (discount : Option ℚ) : ℤ :=
  ((o.foundLine "Shipping Fees").map fun line => st.netPiastres line.amount).getD 0 +
    ((o.foundLine "Invoice Discount").map fun line => st.netPiastres line.amount).getD
      (-netDiscountPiastres st discount)

/-- The base that the VAT line finds and what is left of the fees add up to the fees: the test of
`_get_vat_recalculated_price`. -/
def Order.Completes (st : Settings) (o : Order) (fees found : ℤ) : Prop :=
  st.arithmetic.add (st.arithmetic.round (found / 10 ^ 2))
    (st.arithmetic.round ((fees - found : ℤ) / 10 ^ 2)) = o.shippingFees

instance (st : Settings) (o : Order) (fees found : ℤ) : Decidable (o.Completes st fees found) :=
  inferInstanceAs (Decidable (_ = _))

/-- The recalculated price is the complement of what is found, in piastres, if the test
succeeds. -/
theorem getVatRecalculatedPrice_eq {lines : List InvoiceLine} {shipping less fees : ℤ}
    (hst : st.Accurate error bound) (herror : error < 1 / 1000)
    (hbound : 4 * (top + 1) ≤ bound)
    (hshipping : Near 2 error (priceOfLine "Shipping Fees" lines) shipping)
    (hless : Near 2 error (priceOfLine "Invoice Discount" lines) less)
    (hfees : Near 2 error o.shippingFees fees)
    (hshippingTop : |(shipping : ℚ) / 10 ^ 2| ≤ 11 / 10 * (top + 1))
    (hlessTop : |(less : ℚ) / 10 ^ 2| ≤ 11 / 10 * (top + 1))
    (hfeesTop : |(fees : ℚ) / 10 ^ 2| ≤ top) (price : ℚ) :
    getVatRecalculatedPrice st o price lines =
      if o.Completes st fees (shipping + less) then
        st.arithmetic.round ((fees - (shipping + less) : ℤ) / 10 ^ 2)
      else price := by
  have h0 := hfees.nonneg
  have htop := (abs_nonneg _).trans hfeesTop
  have hfound : |((shipping + less : ℤ) : ℚ) / 10 ^ 2| ≤ 11 / 5 * (top + 1) := by
    push_cast
    rw [add_div]
    exact (abs_add_le _ _).trans (by linarith)
  -- the sum of the two prices, and its rounding to piastres
  have hsum := hshipping.add hless
  have hadd := hst.arithmetic.near hsum (hsum.abs_le.trans (by linarith))
  have hbase : roundHalfEven (st.arithmetic.add (priceOfLine "Shipping Fees" lines)
      (priceOfLine "Invoice Discount" lines)) 2 = ((shipping + less : ℤ) : ℚ) / 10 ^ 2 := by
    rw [roundHalfEven, Arithmetic.add, hadd.roundHalfEven_eq (by linarith)]
  have hbaseNear := hst.arithmetic.near
    (near_zero_iff.mpr (rfl : ((shipping + less : ℤ) : ℚ) / 10 ^ 2 = _))
    (hfound.trans (by linarith))
  -- what is left of the fees, and its rounding
  have hleft := hfees.sub hbaseNear
  have hleftTop : |o.shippingFees - st.arithmetic.round ((shipping + less : ℤ) / 10 ^ 2)| ≤
      bound := by
    refine (abs_sub _ _).trans ?_
    linarith [hfees.abs_le, hbaseNear.abs_le]
  have hsub := hst.arithmetic.near hleft hleftTop
  have hfinal : roundHalfEven (st.arithmetic.sub o.shippingFees
      (st.arithmetic.round ((shipping + less : ℤ) / 10 ^ 2))) 2 =
      ((fees - (shipping + less) : ℤ) : ℚ) / 10 ^ 2 := by
    rw [roundHalfEven, Arithmetic.sub, hsub.roundHalfEven_eq (by linarith)]
  unfold getVatRecalculatedPrice
  dsimp only
  rw [hbase, hfinal]
  rfl

end Amounts

/-! ## The shipping fees and the insurance -/

/-- The amounts of an order in piastres, and its service lines: one of type `shipping` with the
fees before the discount, and one of type `insurance` when there is an insurance. -/
structure Order.HasFeeLines (error : ℚ) (o : Order) (shipping : ServiceLine)
    (insured : Option ServiceLine) (fees discount insurance : ℤ) : Prop where
  shippingFees : Near 2 error o.shippingFees fees
  fees_ne : fees ≠ 0
  discountAmount : Near 2 error o.discountAmount discount
  serviceLineIds : o.serviceLineIds.Perm (shipping :: insured.toList)
  shippingType : shipping.serviceType = .shipping
  shippingAmount : Near 2 error shipping.amount (fees + discount)
  insuredType : ∀ line ∈ insured, line.serviceType = .insurance
  insuredAmount : ∀ line ∈ insured, Near 2 error line.amount insurance
  insured_iff : insured.isSome ↔ insurance ≠ 0

/-- The net price of the insurance, zero without one. -/
def netInsurance (st : Settings) (insured : Option ServiceLine) : ℚ :=
  (insured.map fun line => st.netPrice line.amount).getD 0

def netInsurancePiastres (st : Settings) (insured : Option ServiceLine) : ℤ :=
  (insured.map fun line => st.netPiastres line.amount).getD 0

/-- What has to hold of the net prices of the shipping, of the insurance and of the discount, in
piastres, by the lines that the VAT line takes for the shipping fees and for the discount. It
finds what the create endpoint writes in the first case only; then nothing may be lost of the
insurance. -/
def Order.ChargesFound (o : Order) (shipping insured discount insurance : ℤ) : Prop :=
  match o.foundType "Shipping Fees", o.foundType "Invoice Discount" with
  | some .shipping, none => insured = insurance
  | some .insurance, none => shipping = insurance
  | none, none => shipping + insured = insurance
  | none, some .shipping => insured - discount = insurance
  | none, some .insurance => shipping - discount = insurance
  | _, _ => -discount = insurance

namespace Order.HasFeeLines

variable {st : Settings} {o : Order} {error bound : ℚ} {shipping : ServiceLine}
  {insured : Option ServiceLine} {fees discount insurance : ℤ}
  (h : o.HasFeeLines error shipping insured fees discount insurance)

include h

theorem shippingAmount_eq : o.shippingAmount = shipping.amount := by
  have hnone : insured.toList.filter (·.serviceType = .shipping) = [] := by
    refine List.filter_eq_nil_iff.mpr fun line hline => ?_
    simp [h.insuredType line (Option.mem_toList.mp hline)]
  have hfilter := h.serviceLineIds.filter (·.serviceType = .shipping)
  rw [List.filter_cons_of_pos (by simp [h.shippingType]), hnone, List.perm_singleton] at hfilter
  rw [Order.shippingAmount, Order.shippingLines, hfilter]
  rfl

theorem shippingAmount_ne (herror : error < 1 / 1000) : o.shippingAmount ≠ o.discountAmount := by
  rw [h.shippingAmount_eq]
  intro heq
  have hunique := h.shippingAmount.unique (by linarith) (heq ▸ h.discountAmount)
  exact h.fees_ne (add_eq_right.mp hunique)

theorem netServices_eq :
    netServices st o = st.netPrice shipping.amount + netInsurance st insured := by
  rw [netServices, (h.serviceLineIds.map _).sum_eq, List.map_cons, List.sum_cons, netInsurance]
  cases insured <;> simp

theorem foundLine_cases {name : String} {line : ServiceLine}
    (hline : o.foundLine name = some line) :
    line.description = name ∧ (line = shipping ∧ o.foundType name = some .shipping ∨
      insured = some line ∧ o.foundType name = some .insurance) := by
  have htype : o.foundType name = some line.serviceType := by
    rw [Order.foundType, hline, Option.map_some]
  refine ⟨by simpa using List.find?_some hline, ?_⟩
  have hmem := h.serviceLineIds.mem_iff.mp (List.mem_of_find?_eq_some hline)
  rcases List.mem_cons.mp hmem with rfl | hmem
  · exact .inl ⟨rfl, by rw [htype, h.shippingType]⟩
  · have hinsured := Option.mem_toList.mp hmem
    exact .inr ⟨hinsured, by rw [htype, h.insuredType line hinsured]⟩

/-- What is not found of the net prices is the insurance. -/
theorem chargesFound_iff :
    st.netPiastres shipping.amount + netInsurancePiastres st insured -
          netDiscountPiastres st o.chargedDiscount - foundPiastres st o o.chargedDiscount =
        insurance ↔
      o.ChargesFound (st.netPiastres shipping.amount) (netInsurancePiastres st insured)
        (netDiscountPiastres st o.chargedDiscount) insurance := by
  unfold Order.ChargesFound foundPiastres
  cases hfees : o.foundLine "Shipping Fees" with
  | none =>
      have hfeesType : o.foundType "Shipping Fees" = none := by
        rw [Order.foundType, hfees, Option.map_none]
      cases hless : o.foundLine "Invoice Discount" with
      | none =>
          have hlessType : o.foundType "Invoice Discount" = none := by
            rw [Order.foundType, hless, Option.map_none]
          simp only [hfeesType, hlessType, Option.map_none, Option.getD_none]
          omega
      | some line =>
          obtain ⟨-, ⟨rfl, hlessType⟩ | ⟨rfl, hlessType⟩⟩ := h.foundLine_cases hless <;>
          · simp only [hfeesType, hlessType, netInsurancePiastres, Option.map_none,
              Option.getD_none, Option.map_some, Option.getD_some]
            omega
  | some line =>
      cases hless : o.foundLine "Invoice Discount" with
      | none =>
          have hlessType : o.foundType "Invoice Discount" = none := by
            rw [Order.foundType, hless, Option.map_none]
          obtain ⟨-, ⟨rfl, hfeesType⟩ | ⟨rfl, hfeesType⟩⟩ := h.foundLine_cases hfees <;>
          · simp only [hfeesType, hlessType, netInsurancePiastres, Option.map_none,
              Option.getD_none, Option.map_some, Option.getD_some]
            omega
      | some line' =>
          -- one line has one description only
          obtain ⟨hname, hline⟩ := h.foundLine_cases hfees
          obtain ⟨hname', hline'⟩ := h.foundLine_cases hless
          have hne : line ≠ line' := by
            rintro rfl
            exact absurd (hname.symm.trans hname') (by decide)
          obtain ⟨rfl, hfeesType⟩ | ⟨rfl, hfeesType⟩ := hline <;>
            obtain ⟨rfl, hlessType⟩ | ⟨heq, hlessType⟩ := hline'
          · exact absurd rfl hne
          · simp only [hfeesType, hlessType, netInsurancePiastres, heq, Option.map_some,
              Option.getD_some]
            omega
          · simp only [hfeesType, hlessType, netInsurancePiastres, Option.map_some,
              Option.getD_some]
            omega
          · exact absurd (Option.some.inj heq) hne

omit h in
/-- The amounts are at most those of the whole order. -/
theorem abs_div_le_top (fees discount insurance : ℤ) :
    |((fees + discount : ℤ) : ℚ) / 10 ^ 2| ≤
        ((|fees| + |discount| + |insurance| : ℤ) : ℚ) / 10 ^ 2 ∧
      |(fees : ℚ) / 10 ^ 2| ≤ ((|fees| + |discount| + |insurance| : ℤ) : ℚ) / 10 ^ 2 ∧
      |(discount : ℚ) / 10 ^ 2| ≤ ((|fees| + |discount| + |insurance| : ℤ) : ℚ) / 10 ^ 2 ∧
      |(insurance : ℚ) / 10 ^ 2| ≤ ((|fees| + |discount| + |insurance| : ℤ) : ℚ) / 10 ^ 2 := by
  have hsum := abs_add_le (fees : ℚ) discount
  have hfees := abs_nonneg (fees : ℚ)
  have hdiscount := abs_nonneg (discount : ℚ)
  have hinsurance := abs_nonneg (insurance : ℚ)
  simp only [abs_div, abs_of_pos (by positivity : (0 : ℚ) < 10 ^ 2), Int.cast_add, Int.cast_abs]
  refine ⟨?_, ?_, ?_, ?_⟩ <;>
    exact div_le_div_of_nonneg_right (by linarith) (by positivity)

section NetPrices

variable (hst : st.Accurate error bound) (herror : error < 1 / 1000) (hrate : 0 ≤ st.taxRate)
  (hbound : 4 * (((|fees| + |discount| + |insurance| : ℤ) : ℚ) / 10 ^ 2 + 1) ≤ bound)

include hst herror hrate hbound

/-- The net prices stand for piastres. -/
theorem line_near {line : ServiceLine} (hline : line ∈ o.serviceLineIds) :
    Near 2 error (st.netPrice line.amount) (st.netPiastres line.amount) ∧
      |(st.netPiastres line.amount : ℚ) / 10 ^ 2| ≤
        11 / 10 * (((|fees| + |discount| + |insurance| : ℤ) : ℚ) / 10 ^ 2 + 1) := by
  obtain ⟨hgross, -, -, hinsured⟩ := abs_div_le_top fees discount insurance
  rcases List.mem_cons.mp (h.serviceLineIds.mem_iff.mp hline) with rfl | hmem
  · exact Settings.netPrice_near hst herror hrate hbound h.shippingAmount hgross
  · exact Settings.netPrice_near hst herror hrate hbound
      (h.insuredAmount line (Option.mem_toList.mp hmem)) hinsured

theorem netDiscount_near :
    Near 2 error (netDiscount st o.chargedDiscount) (netDiscountPiastres st o.chargedDiscount) ∧
      |(netDiscountPiastres st o.chargedDiscount : ℚ) / 10 ^ 2| ≤
        11 / 10 * (((|fees| + |discount| + |insurance| : ℤ) : ℚ) / 10 ^ 2 + 1) := by
  obtain ⟨-, hfees, hdiscount, -⟩ := abs_div_le_top fees discount insurance
  unfold Order.chargedDiscount
  split
  · exact Settings.netPrice_near hst herror hrate hbound h.discountAmount hdiscount
  · refine ⟨near_zero h.shippingFees.nonneg, ?_⟩
    simp only [netDiscountPiastres, Option.map_none, Option.getD_none, Int.cast_zero, zero_div,
      abs_zero]
    linarith [abs_nonneg ((fees : ℚ) / 10 ^ 2)]

theorem netInsurance_near :
    Near 2 error (netInsurance st insured) (netInsurancePiastres st insured) := by
  cases hinsured : insured with
  | none => exact near_zero h.shippingFees.nonneg
  | some line =>
      refine (h.line_near hst herror hrate hbound (h.serviceLineIds.mem_iff.mpr ?_)).1
      simp [hinsured]

/-- The lines without the VAT line. -/
theorem charged_netLines_near (hok : Invoiceable st o o.chargedDiscount) :
    Near 2 (error + error + error) (charged (netLines st o o.chargedDiscount))
      (st.netPiastres shipping.amount + netInsurancePiastres st insured -
        netDiscountPiastres st o.chargedDiscount) := by
  rw [charged_netLines hok, h.netServices_eq]
  refine ((h.line_near hst herror hrate hbound (h.serviceLineIds.mem_iff.mpr ?_)).1.add
    (h.netInsurance_near hst herror hrate hbound)).sub
      (h.netDiscount_near hst herror hrate hbound).1
  exact List.mem_cons_self ..

theorem priceOfLine_near (hok : Invoiceable st o o.chargedDiscount) (name : String) :
    let found := ((o.foundLine name).map fun line => st.netPiastres line.amount).getD
      (if name = "Invoice Discount" then -netDiscountPiastres st o.chargedDiscount else 0)
    Near 2 error (priceOfLine name (netLines st o o.chargedDiscount)) found ∧
      |(found : ℚ) / 10 ^ 2| ≤
        11 / 10 * (((|fees| + |discount| + |insurance| : ℤ) : ℚ) / 10 ^ 2 + 1) := by
  obtain ⟨hless, hlessTop⟩ := h.netDiscount_near hst herror hrate hbound
  rw [priceOfLine_netLines hok]
  cases hfound : o.foundLine name with
  | some line =>
      exact h.line_near hst herror hrate hbound (List.mem_of_find?_eq_some hfound)
  | none =>
      simp only [Option.map_none, Option.getD_none]
      split
      · refine ⟨hless.neg, ?_⟩
        rwa [Int.cast_neg, neg_div, abs_neg]
      · refine ⟨near_zero h.shippingFees.nonneg, ?_⟩
        rw [Int.cast_zero, zero_div, abs_zero]
        exact (abs_nonneg _).trans hlessTop

/-- The price of the VAT line. -/
theorem vatPrice_eq (hok : Invoiceable st o o.chargedDiscount) (price : ℚ) :
    getVatRecalculatedPrice st o price (netLines st o o.chargedDiscount) =
      if o.Completes st fees (foundPiastres st o o.chargedDiscount) then
        st.arithmetic.round ((fees - foundPiastres st o o.chargedDiscount : ℤ) / 10 ^ 2)
      else price := by
  obtain ⟨hshipping, hshippingTop⟩ := h.priceOfLine_near hst herror hrate hbound hok
    "Shipping Fees"
  obtain ⟨hless, hlessTop⟩ := h.priceOfLine_near hst herror hrate hbound hok "Invoice Discount"
  exact getVatRecalculatedPrice_eq hst herror hbound hshipping hless h.shippingFees hshippingTop
    hlessTop (abs_div_le_top fees discount insurance).2.1 price

/-- The complement stands for what is left of the fees. -/
theorem complement_near (hok : Invoiceable st o o.chargedDiscount) :
    Near 2 error
      (st.arithmetic.round ((fees - foundPiastres st o o.chargedDiscount : ℤ) / 10 ^ 2))
      (fees - foundPiastres st o o.chargedDiscount) := by
  have hshipping := (h.priceOfLine_near hst herror hrate hbound hok "Shipping Fees").2
  have hless := (h.priceOfLine_near hst herror hrate hbound hok "Invoice Discount").2
  obtain ⟨-, hfees, -, -⟩ := abs_div_le_top fees discount insurance
  have htop : |((fees - foundPiastres st o o.chargedDiscount : ℤ) : ℚ) / 10 ^ 2| ≤ bound := by
    rw [foundPiastres, Int.cast_sub, Int.cast_add, sub_div, add_div]
    refine (abs_sub _ _).trans ((add_le_add_right (abs_add_le _ _) _).trans ?_)
    have hname : ¬ "Shipping Fees" = "Invoice Discount" := by decide
    simp only [if_neg hname, if_true] at hshipping hless
    linarith [abs_nonneg ((fees : ℚ) / 10 ^ 2)]
  have hnear := hst.arithmetic.near (near_zero_iff.mpr rfl) htop
  rwa [add_zero] at hnear

end NetPrices

end Order.HasFeeLines

section Fees

variable {st : Settings} {o : Order} {error bound : ℚ} {shipping : ServiceLine}
  {insured : Option ServiceLine} {fees discount insurance : ℤ} {m : Move}

/-- The lines of the invoice of an order with fee lines. -/
theorem prepareInvoice_lines (herror : error < 1 / 1000)
    (hlines : o.HasFeeLines error shipping insured fees discount insurance)
    (hm : prepareInvoice st o = .ok m) :
    Invoiceable st o o.chargedDiscount ∧ ∃ vat,
      m.invoiceLineIds = netLines st o o.chargedDiscount ++ [vat] ∧
      vat.charge = vat.priceUnit ∧
      vat.priceUnit = getVatRecalculatedPrice st o (st.taxOn o.shippingFees)
        (netLines st o o.chargedDiscount) := by
  obtain ⟨⟨-, hok⟩, rfl⟩ := prepareInvoice_eq_ok_iff.mp hm
  refine ⟨hok, _, rfl, ?_, ?_⟩
  · simp [InvoiceLine.charge, vatLine]
  · rw [vatLine, vatPrice, if_pos (hlines.shippingAmount_ne herror)]

end Fees

/-- The small company, with a value added tax of 14%. -/
def Settings.withVat : Settings :=
  { Settings.sample with activateVatCalculation := true, percentTaxes := [14], codeTaxes := [1] }

/-- In floats, an amount up to a million is off by a very small part of a piastre. -/
theorem Settings.withVat_accurate : Settings.withVat.Accurate (2 ^ (-33 : ℤ)) (2 ^ (20 : ℤ)) where
  arithmetic := Arithmetic.double_errsAtMost (by norm_num)
  floatRoundUp x _ := by
    refine (abs_roundAway_sub_lt (by positivity) x).le.trans ?_
    norm_num

def shippingLine (amount : ℚ) : ServiceLine where
  product := Settings.sample.mainServiceProducts.head?
  amount := amount
  description := "Shipping Fees"
  serviceType := .shipping

def insuranceLine (amount : ℚ) : ServiceLine where
  product := Settings.sample.mainServiceProducts.head?
  amount := amount
  description := "Insurance Fees"
  serviceType := .insurance

/-- An order of the create endpoint. -/
def createdOrder (shippingFees discountAmount insurance : ℚ) : Order where
  orderId := "A"
  customer := 5
  shippingFees := shippingFees
  discountAmount := discountAmount
  insuranceFees := insurance
  serviceLineIds :=
    shippingLine (shippingFees + discountAmount) ::
      if insurance = 0 then [] else [insuranceLine insurance]

theorem createdOrder_invoiceable (st : Settings)
    (hproducts : st.products = Settings.sample.products) (hrate : st.HasTaxRate)
    (hcode : st.codeTaxes.length ≤ 1) (shippingFees discountAmount insurance : ℚ) :
    Invoiceable st (createdOrder shippingFees discountAmount insurance)
      (createdOrder shippingFees discountAmount insurance).chargedDiscount where
  costCenter := by
    by_cases h : insurance = 0 <;>
      simp [createdOrder, shippingLine, insuranceLine, h, ServiceLine.costCenter,
        Settings.mainServiceProducts, Settings.sample]
  discountProduct _ := by
    rw [Settings.mainDiscountServices, hproducts]
    exact ⟨_, rfl, by decide⟩
  hasTaxRate := hrate
  shippingLines := by
    by_cases h : insurance = 0 <;>
      simp [Order.shippingLines, createdOrder, shippingLine, insuranceLine, h]
  mainVatServices := by
    rw [Settings.mainVatServices, hproducts]
    decide
  codeTaxes := hcode

/-- The invoice of such an order of the company with the tax. -/
theorem createdOrder_prepareInvoice (shippingFees discountAmount insurance : ℚ) :
    ∃ m, prepareInvoice .withVat (createdOrder shippingFees discountAmount insurance) = .ok m ∧
      m.invoiceLineIds = chargedLines .withVat (createdOrder shippingFees discountAmount insurance)
        (createdOrder shippingFees discountAmount insurance).chargedDiscount :=
  ⟨_, prepareInvoice_eq_ok_iff.mpr ⟨⟨by decide, createdOrder_invoiceable .withVat rfl
    ⟨by decide, by decide +kernel⟩ (by decide) shippingFees discountAmount insurance⟩, rfl⟩, rfl⟩

theorem createdOrder_hasFeeLines :
    (createdOrder 100 10 50).HasFeeLines (2 ^ (-33 : ℤ)) (shippingLine 110)
      (some (insuranceLine 50)) 10000 1000 5000 where
  shippingFees := by norm_num [Near, createdOrder]
  fees_ne := by decide
  discountAmount := by norm_num [Near, createdOrder]
  serviceLineIds := by norm_num [createdOrder]
  shippingType := rfl
  shippingAmount := by norm_num [Near, shippingLine]
  insuredType := by simp [insuranceLine]
  insuredAmount := by norm_num [Near, insuranceLine]
  insured_iff := by simp

/-- The two parts of the fees need not add up to them in floats. -/
example : ¬ (createdOrder (Double.round 126.58) 0 0).Completes .withVat 12658
    (foundPiastres .withVat (createdOrder (Double.round 126.58) 0 0) none) := by
  decide +kernel

end Fastrak
