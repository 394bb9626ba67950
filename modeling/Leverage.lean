import Leverage.Auction.Venue
import Leverage.Lending.Accrual
import Leverage.Lending.Guard
import Leverage.Lending.Ledger
import Leverage.Lending.Valuation
import Leverage.Margin.PnlWeight
import Leverage.Margin.Requirement
import Leverage.Margin.Weight
import Leverage.Perp.Price
import Leverage.Snapshot.Records
import Leverage.Proofs.Lending.Conversion
import Leverage.Proofs.Lending.RoundTrip
import Leverage.Proofs.Lending.Positions
import Leverage.Proofs.Lending.Utilization
import Leverage.Proofs.Lending.RateCurve
import Leverage.Proofs.Lending.Rates
import Leverage.Proofs.Lending.Accrual
import Leverage.Proofs.Lending.AccruedTokens
import Leverage.Proofs.Lending.SplitAccrual
import Leverage.Proofs.Lending.Valuation
import Leverage.Proofs.SquareRoot
import Leverage.Proofs.Margin.Size
import Leverage.Proofs.Margin.SizeCurve
import Leverage.Proofs.Margin.SizeOrder
import Leverage.Proofs.Margin.TierOrder
import Leverage.Proofs.Lending.Decimals
import Leverage.Proofs.MarketMaker.Repeg
import Leverage.Proofs.MarketMaker.RepegRun
import Leverage.Proofs.MarketMaker.Reach
import Leverage.Proofs.MarketMaker.RepegOrder
import Leverage.Proofs.MarketMaker.RepegAgain
import Leverage.Proofs.MarketMaker.Price
import Leverage.Proofs.MarketMaker.Spread
import Leverage.Proofs.MarketMaker.SpreadWidth
import Leverage.Proofs.MarketMaker.Swap
import Leverage.Proofs.MarketMaker.SwapPrice
import Leverage.Proofs.Perp.PriceOrder
import Leverage.Proofs.Perp.TradeRun
import Leverage.Proofs.Auction.Tick
import Leverage.Proofs.Auction.Walk
import Leverage.Proofs.Auction.Limit
import Leverage.Proofs.Auction.Venue
import Leverage.Proofs.Snapshot.Bytes
import Leverage.Proofs.Snapshot.Exactness
import Leverage.Proofs.Snapshot.Records
import Leverage.Proofs.Auction.Grid
import Leverage.Proofs.Auction.Advance
import Leverage.Proofs.Lending.IndexOrder
import Leverage.Proofs.MarketMaker.MarkPrice
import Leverage.Proofs.Lending.Guard
import Leverage.Proofs.Lending.GuardOrder
import Leverage.Proofs.Lending.GuardAge
import Leverage.Proofs.Margin.PnlWeight
import Leverage.Proofs.Margin.PnlSize
import Leverage.Proofs.Lending.Appraisal
import Leverage.Proofs.Perp.Pnl
import Leverage.Proofs.SquareRootRun
