import CardScope.Library.Table
import CardScope.Library.Chain
import CardScope.Library.Runs
import CardScope.Library.Blocks
import CardScope.Library.Pairs
import CardScope.Ingestion.Points
import CardScope.Ingestion.Events
import CardScope.Integration.SingleCount
import CardScope.Integration.Resolutions
import CardScope.Integration.Bounds
import CardScope.Integration.Extent
import CardScope.Retention.Transparency
import CardScope.Arrival.OrderIndependence
import CardScope.Attribution.Rollups
import CardScope.Live.Reception
import CardScope.Live.Replacement
import CardScope.Live.Missing
import CardScope.Events.Started
import CardScope.Events.Failures
import CardScope.Isolation.Independence
import CardScope.Access.Sessions
import CardScope.Access.Dispatch
import CardScope.Access.Reachable
import CardScope.Agent.Delivery
import CardScope.Access.NodeNames
import CardScope.CardHours.Search
import CardScope.CardHours.Ranges
import CardScope.Web.Resources
import CardScope.Events.First
import CardScope.Live.Metrics
import CardScope.Agent.Rejected
import CardScope.Agent.Rates
import CardScope.Collect.Accepted
import CardScope.Collect.Mounts
import CardScope.Collect.Rounds
import CardScope.Integration.Splitting
import CardScope.Access.RateLimits
import CardScope.Web.Counts
import CardScope.Trends.Cluster
import CardScope.Agent.Listing
import CardScope.Agent.Pruning
import CardScope.Web.Polling
import CardScope.Accounting.Users
import CardScope.Accounting.Trends
import CardScope.Accounting.Cluster
import CardScope.Agent.Crashes
import CardScope.Access.SessionLog
import CardScope.Access.Locking
import CardScope.Access.Fleet
import CardScope.CardHours.Export
import CardScope.Arrival.Hours
import CardScope.Collect.Workers
import CardScope.Web.Tags
import CardScope.Web.Statistics
