import Betsphere.Lib.MachineInt
import Betsphere.Lib.Apportion
import Betsphere.Lib.Transition
import Betsphere.Lib.Table
import Betsphere.Lib.RowLock
import Betsphere.Lib.Deadlock
import Betsphere.Lib.UniqueIndex
import Betsphere.Lib.Keyset
import Betsphere.Lib.FirstSeen
import Betsphere.Lib.Backlinks
import Betsphere.Domain.Values
import Betsphere.Domain.Entities
import Betsphere.Domain.Pricing
import Betsphere.Postgres.Database
import Betsphere.Postgres.Effects
import Betsphere.Application.Ports
import Betsphere.Application.Betting
import Betsphere.Application.Profile
import Betsphere.System.Step
import Betsphere.Postgres.Growth
import Betsphere.Postgres.Locking
import Betsphere.System.WellFormed
import Betsphere.System.Totals
import Betsphere.System.Copies
import Betsphere.System.Balances
import Betsphere.System.Snapshots
import Betsphere.System.Prices
import Betsphere.System.Settlement
import Betsphere.System.Ledger
import Betsphere.System.Accounts
import Betsphere.System.Admins
import Betsphere.System.Arithmetic
import Betsphere.System.Interleaving
import Betsphere.System.Quotes
import Betsphere.System.Chart
import Betsphere.System.Retries
import Betsphere.System.Deadlock
import Betsphere.Events.Outbox
import Betsphere.Events.Delivery
import Betsphere.Events.Drain
import Betsphere.Events.Feed
import Betsphere.Domain.Chat
import Betsphere.Events.Topics
import Betsphere.Events.PriceFeed
import Betsphere.Chat.Store
import Betsphere.Chat.Reactions
import Betsphere.Events.Running
import Betsphere.Events.Duties
import Betsphere.Chat.Broadcasters
import Betsphere.Chat.Routing
import Betsphere.Chat.Flags
import Betsphere.Chat.Ordering
import Betsphere.Chat.Paging
import Betsphere.Chat.Tallies
import Betsphere.Chat.ReactionOrder
import Betsphere.Chat.History
import Betsphere.Chat.Posting
import Betsphere.Chat.Agreement
import Betsphere.Chat.Replies
import Betsphere.Chat.RoomFeeds
import Betsphere.Chat.CatchUp
import Betsphere.Redis.UserCache
import Betsphere.Domain.Credentials
import Betsphere.Auth.Sessions
import Betsphere.Auth.Rotation
import Betsphere.Auth.Lineages
import Betsphere.Auth.Registration
import Betsphere.Postgres.BetListing
import Betsphere.Ws.Frames
import Betsphere.Events.BetFeeds
import Betsphere.Ws.Connection
import Betsphere.Ws.Invariants
import Betsphere.Ws.Streams
import Betsphere.Ws.Unsubscribe
import Betsphere.Ws.Delivery
import Betsphere.Ws.Subscribe
import Betsphere.Auth.RefreshRoute
import Betsphere.Domain.PriceMoves
import Betsphere.Domain.Winnings
import Betsphere.Storage.UploadFailures
import Betsphere.Storage.UploadRaces
import Betsphere.InMemory.MarketListing
import Betsphere.InMemory.Sequential
import Betsphere.InMemory.StaleCopies
import Betsphere.System.BetListings
import Betsphere.Api.ListQueries
import Betsphere.Api.Authority
import Betsphere.Demo.Tidy
import Betsphere.InMemory.Positions
import Betsphere.InMemory.PriceHistory
import Betsphere.Lib.Like
import Betsphere.Postgres.Rows
import Betsphere.Postgres.TitleSearch
import Betsphere.Redis.CachedRecords
import Betsphere.Storage.Containment
import Betsphere.Storage.PublishedUrls
import Betsphere.System.EntryPrices
import Betsphere.Ws.Names
import Betsphere.Demo.Shorten
import Betsphere.Demo.Thinking
import Betsphere.Demo.CannedLine
import Betsphere.Demo.Board
import Betsphere.Demo.MarketMaker
import Betsphere.Demo.Cast
